import NewMuduo.Logging
import NewMuduo.Simulation

namespace NewMuduo

-- What localtime_r promises, for a year of four characters.
structure Tm.Documented (tm : Tm) : Prop where
  year : -2899 ≤ tm.tm_year ∧ tm.tm_year ≤ 8099
  month : 0 ≤ tm.tm_mon ∧ tm.tm_mon ≤ 11
  day : 1 ≤ tm.tm_mday ∧ tm.tm_mday ≤ 31
  hour : 0 ≤ tm.tm_hour ∧ tm.tm_hour ≤ 23
  minute : 0 ≤ tm.tm_min ∧ tm.tm_min ≤ 59
  second : 0 ≤ tm.tm_sec ∧ tm.tm_sec ≤ 60

namespace LogItem

-- formatInteger reads outside its digits for the lowest value of a signed type.
def Formats : LogItem → Prop
  | .integer overload v _ => ¬(overload.type.signed = true ∧ v = overload.type.lowest)
  | .bool _ | .cstring _ | .string _ | .formatted _ => True

def text : LogItem → String
  | .bool v => if v then "1" else "0"
  | .integer _ v _ => v.repr
  | .cstring v => v.getD "(null)"
  | .string v | .formatted v => v

end LogItem

namespace LogStream
variable {s : LogStream} {buf : Nat → Char} {v : Int}

-- buffer_ grows by a text.
def Adds (s : LogStream) (result : Option LogStream) (text : String) : Prop :=
  ∃ after, result = some after ∧ after.buffer = s.buffer ++ text

theorem Adds.same {result : Option LogStream} (adds : Adds s result "") : ∃ after, result = some after ∧ after.buffer = s.buffer := by
  obtain ⟨after,done,text⟩ := adds
  exact ⟨after,done,by rw [text,String.append_empty]⟩

theorem append_adds (s : LogStream) (text : String) : Adds s (some (s.append text)) text := ⟨_,rfl,rfl⟩

theorem zeroPadded_length (width : Nat) (v : Int) : (zeroPadded width v).length =
    max width ((if v < 0 then 1 else 0) + v.natAbs.repr.length) := by
  unfold zeroPadded
  dsimp only
  rw [String.length_append,String.length_append,String.length_ofList,List.length_replicate]
  split
  · have one : "-".length = 1 := rfl
    omega
  · have none : "".length = 0 := rfl
    omega

theorem spacePadded_length (width : Nat) (v : Int) : (spacePadded width v).length = max width v.repr.length := by
  unfold spacePadded
  rw [String.length_append,String.length_ofList,List.length_replicate]
  omega

theorem repr_length_le (some : 0 < k) (small : n < 10 ^ k) : (Nat.repr n).length ≤ k :=
  (Nat.length_repr_le_iff some).mpr small

theorem two_digits (low : 0 ≤ v) (high : v < 100) : (zeroPadded 2 v).length = 2 := by
  have few : v.natAbs.repr.length ≤ 2 := repr_length_le (by decide) (by omega)
  rw [zeroPadded_length,if_neg (Int.not_lt.mpr low)]
  omega

theorem int_repr_length (v : Int) : v.repr.length = (if v < 0 then 1 else 0) + v.natAbs.repr.length := by
  cases v with
  | ofNat n =>
    have plus : ¬Int.ofNat n < 0 := Int.not_lt.mpr (Int.natCast_nonneg n)
    rw [if_neg plus,Nat.zero_add]
    rfl
  | negSucc n =>
    rw [if_pos (Int.negSucc_lt_zero n)]
    change ("-" ++ Nat.repr (n + 1)).length = _
    rw [String.length_append]
    rfl

theorem four_characters (low : -999 ≤ v) (high : v ≤ 9999) : (spacePadded 4 v).length = 4 := by
  have few : v.repr.length ≤ 4 := by
    rw [int_repr_length]
    split
    · have most : v.natAbs.repr.length ≤ 3 := repr_length_le (by decide) (by omega)
      omega
    · have most : v.natAbs.repr.length ≤ 4 := repr_length_le (by decide) (by omega)
      omega
  rw [spacePadded_length]
  omega

theorem shlChar_adds (s : LogStream) (buf : Nat → Char) (c : Char) (held : IntType.int.Holds c.toNat) :
    Adds s (s.shlChar buf c) c.toNat.repr :=
  formatInteger_unsigned held (by decide) s buf

theorem shl_adds (s : LogStream) (buf : Nat → Char) (overload : Overload) (held : overload.type.Holds v)
    (above : ¬(overload.type.signed = true ∧ v = overload.type.lowest)) : Adds s (s.shl overload buf v) v.repr := by
  cases v with
  | ofNat n => exact formatInteger_unsigned held overload.narrow s buf
  | negSucc n =>
    have signed := IntType.signed_of_negative held (Int.negSucc_lt_zero n)
    have opposite := IntType.neg_holds held signed fun lowest => above ⟨signed,lowest⟩
    exact formatInteger_negative signed opposite overload.narrow s buf

theorem shlItem_adds (s : LogStream) (buf : Nat → Char) (item : LogItem) (formats : item.Formats) :
    Adds s (s.shlItem buf item) item.text := by
  cases item with
  | bool v => exact append_adds s _
  | integer overload v held => exact shl_adds s buf overload held formats
  | cstring v => exact append_adds s _
  | string v => exact append_adds s _
  | formatted v => exact append_adds s _

theorem shlItem_lowest (s : LogStream) (buf : Nat → Char) (item : LogItem) (lowest : ¬item.Formats) : s.shlItem buf item = none := by
  cases item with
  | integer overload v held =>
    obtain ⟨signed,rfl⟩ := not_not.mp lowest
    exact shl_lowest overload signed s buf
  | bool v => exact absurd trivial lowest
  | cstring v => exact absurd trivial lowest
  | string v => exact absurd trivial lowest
  | formatted v => exact absurd trivial lowest

-- A text that is just as long as it is said to be adds nothing.
theorem shlT_whole (s : LogStream) (exact_ : str.length = len) : Adds s (s.shlT str len) "" := by
  refine ⟨_,if_pos (Nat.le_of_eq exact_.symm),?_⟩
  have none : str.toList.drop len = [] := List.drop_of_length_le (Nat.le_of_eq exact_)
  rw [none]
  rfl

theorem shlT_short (s : LogStream) (shorter : str.length < len) : s.shlT str len = none := if_neg (Nat.not_le.mpr shorter)

end LogStream

namespace Logging
open LogStream

theorem clockText_length {tm : Tm} (documented : tm.Documented) : (clockText tm).length = 17 := by
  obtain ⟨year,month,day,hour,minute,second⟩ := documented
  have space : " ".length = 1 := rfl
  have colon : ":".length = 1 := rfl
  unfold clockText
  simp only [String.length_append,space,colon,four_characters (v := tm.tm_year + 1900) (by omega) (by omega),
    two_digits (v := tm.tm_mon + 1) (by omega) (by omega),two_digits (v := tm.tm_mday) (by omega) (by omega),
    two_digits (v := tm.tm_hour) (by omega) (by omega),two_digits (v := tm.tm_min) (by omega) (by omega),
    two_digits (v := tm.tm_sec) (by omega) (by omega)]

-- What formatTime leaves in the stream: nothing, except for the last tenths of
-- a second before the epoch, whose microseconds take one character more.
def early (time : Int) : String := if time.tmod kMicroSecondsPerSecond ≤ -100000 then " " else ""

theorem shlT_microseconds (s : LogStream) (time : Int) :
    Adds s (s.shlT ("." ++ zeroPadded 6 (time.tmod kMicroSecondsPerSecond) ++ " ") 8) (early time) := by
  have low : -1000000 < time.tmod kMicroSecondsPerSecond := Int.lt_tmod_of_pos time (by decide)
  have high : time.tmod kMicroSecondsPerSecond < 1000000 := Int.tmod_lt_of_pos time (by decide)
  unfold early
  generalize time.tmod kMicroSecondsPerSecond = v at low high ⊢
  have dot : ".".length = 1 := rfl
  have space : " ".length = 1 := rfl
  split
  · rename_i long
    have digits : v.natAbs.repr.length = 6 := by
      have most : v.natAbs.repr.length ≤ 6 := repr_length_le (by decide) (by omega)
      have least : ¬v.natAbs.repr.length ≤ 5 := fun short => by
        have small := (Nat.length_repr_le_iff (by decide)).mp short
        omega
      omega
    have seven : (zeroPadded 6 v).length = 7 := by
      rw [zeroPadded_length,if_pos (by omega),digits]
      rfl
    have inside : 8 ≤ ("." ++ zeroPadded 6 v ++ " ").length := by
      rw [String.length_append,String.length_append,dot,space,seven]
      decide
    refine ⟨_,if_pos inside,?_⟩
    have rest : ("." ++ zeroPadded 6 v ++ " ").toList.drop 8 = [' '] := by
      rw [String.toList_append]
      refine List.drop_left' ?_
      rw [String.length_toList,String.length_append,dot,seven]
    rw [rest]
    rfl
  · rename_i short
    have six : (zeroPadded 6 v).length = 6 := by
      rw [zeroPadded_length]
      split
      · have most : v.natAbs.repr.length ≤ 5 := repr_length_le (by decide) (by omega)
        omega
      · have most : v.natAbs.repr.length ≤ 6 := repr_length_le (by decide) (by omega)
        omega
    refine shlT_whole s ?_
    rw [String.length_append,String.length_append,dot,space,six]

-- t_time is as the thread began with it, or holds a time.
def Cached (th : LogThread) : Prop := (th.t_time = "" ∧ th.t_lastSecond = 0) ∨ th.t_time.length = 17

-- The condition: the thread has logged before, or the clock is past the second
-- that t_lastSecond begins with.
def Timed (th : LogThread) (time : Int) : Prop := time.tdiv kMicroSecondsPerSecond ≠ 0 ∨ th.t_time ≠ ""

variable {localtime : Int → Tm} {strerror : Int → String} {buf : Nat → Char} {th : LogThread} {time : Int} {st : LogStatement}

theorem renew_parts (time : Int) (zone : ∀ seconds, (localtime seconds).Documented) (cached : Cached th) :
    ∃ later, renew localtime th (time.tdiv kMicroSecondsPerSecond) = some later ∧ Cached later ∧
      (later.t_time.length = 17 ↔ Timed th time) ∧ (¬Timed th time → later.t_time.length < 17) := by
  have apart : th.t_time.length = 17 → th.t_time ≠ "" := by
    intro long empty
    rw [empty] at long
    cases long
  unfold renew Timed
  split
  · rename_i other
    have length := clockText_length (zone (time.tdiv kMicroSecondsPerSecond))
    have timed : time.tdiv kMicroSecondsPerSecond ≠ 0 ∨ th.t_time ≠ "" := by
      rcases cached with ⟨_,first⟩ | long
      · exact .inl fun zero => other (zero.trans first.symm)
      · exact .inr (apart long)
    exact ⟨_,if_pos length,.inr length,iff_of_true length timed,fun untimed => absurd timed untimed⟩
  · rename_i same
    have same := not_not.mp same
    rcases cached with ⟨empty,first⟩ | long
    · have untimed : ¬(time.tdiv kMicroSecondsPerSecond ≠ 0 ∨ th.t_time ≠ "") := by
        rw [same,first,empty]
        simp
      have short : th.t_time.length < 17 := by
        rw [empty]
        decide
      exact ⟨th,rfl,.inl ⟨empty,first⟩,iff_of_false (Nat.ne_of_lt short) untimed,fun _ => short⟩
    · exact ⟨th,rfl,.inr long,iff_of_true long (.inr (apart long)),fun untimed => absurd (.inr (apart long)) untimed⟩

theorem formatTime_adds (zone : ∀ seconds, (localtime seconds).Documented) (cached : Cached th) (timed : Timed th time) (s : LogStream) :
    ∃ later after, formatTime localtime th time s = some (later,after) ∧ Cached later ∧ after.buffer = s.buffer ++ early time := by
  obtain ⟨later,renewed,kept,long,_⟩ := renew_parts time zone cached
  obtain ⟨first,done,same⟩ := (shlT_whole s (long.mpr timed)).same
  obtain ⟨second,more,text⟩ := shlT_microseconds first time
  refine ⟨later,second,?_,kept,by rw [text,same]⟩
  simp only [formatTime,renewed,done,more,Option.bind_eq_bind,Option.bind_some]

theorem formatTime_throws (zone : ∀ seconds, (localtime seconds).Documented) (cached : Cached th) (untimed : ¬Timed th time)
    (s : LogStream) : formatTime localtime th time s = none := by
  obtain ⟨later,renewed,_,_,short⟩ := renew_parts time zone cached
  simp only [formatTime,renewed,shlT_short s (short untimed),Option.bind_eq_bind,Option.bind_some,Option.bind_none]

theorem name_length (level : LogLevel) : level.name.length = 6 := by
  cases level <;> rfl

-- What the constructors leave in the stream.
def head (time : Int) (st : LogStatement) : String := early time ++ if st.which.named then st.func ++ "32" else ""

theorem logger_adds (strerror : Int → String) (buf : Nat → Char) (st : LogStatement)
    (zone : ∀ seconds, (localtime seconds).Documented) (cached : Cached th) (timed : Timed th time) :
    ∃ later after, logger localtime strerror buf th time st = some (later,after) ∧ Cached later ∧ after.buffer = head time st := by
  obtain ⟨later,first,formatted,kept,text⟩ := formatTime_adds zone cached timed .empty
  obtain ⟨second,named,same⟩ := (shlT_whole first (name_length st.which.level)).same
  have made : impl localtime strerror buf th time st.which.level 0 = some (later,second) := by
    simp only [impl,formatted,named,Option.bind_eq_bind,Option.bind_some,ne_eq,not_true_eq_false,if_false]
  have begun : second.buffer = early time := by
    rw [same,text]
    exact String.empty_append
  unfold logger head
  rw [made]
  dsimp only [Option.bind_eq_bind,Option.bind_some]
  split
  · obtain ⟨third,spaced,more⟩ := shlChar_adds (second.shlString st.func) buf ' ' (by decide)
    refine ⟨later,third,by rw [spaced]; rfl,kept,?_⟩
    rw [more]
    change second.buffer ++ st.func ++ "32" = _
    rw [begun,String.append_assoc]
  · exact ⟨later,second,rfl,kept,by rw [begun,String.append_empty]⟩

def itemsText (items : List LogItem) : String := items.foldr (fun item rest => item.text ++ rest) ""

theorem shlItems_adds (buf : Nat → Char) {items : List LogItem} (formats : ∀ item ∈ items, item.Formats) (s : LogStream) :
    Adds s (shlItems buf s items) (itemsText items) := by
  induction items generalizing s with
  | nil => exact ⟨s,rfl,(String.append_empty ..).symm⟩
  | cons item rest ih =>
    obtain ⟨first,shown,text⟩ := shlItem_adds s buf item (formats item List.mem_cons_self)
    obtain ⟨last,done,more⟩ := ih (fun other member => formats other (List.mem_cons_of_mem _ member)) first
    refine ⟨last,?_,?_⟩
    · simp only [shlItems,shown,Option.bind_some,done]
    · rw [more,text,String.append_assoc]
      rfl

theorem shlItems_lowest (buf : Nat → Char) {items : List LogItem} (lowest : ¬∀ item ∈ items, item.Formats) (s : LogStream) :
    shlItems buf s items = none := by
  induction items generalizing s with
  | nil => exact absurd (fun _ member => by cases member) lowest
  | cons item rest ih =>
    by_cases first : item.Formats
    · have later : ¬∀ other ∈ rest, other.Formats := fun all => lowest fun other member => by
        rcases List.mem_cons.mp member with rfl | member
        · exact first
        · exact all other member
      obtain ⟨after,shown,_⟩ := shlItem_adds s buf item first
      simp only [shlItems,shown,Option.bind_some]
      exact ih later after
    · simp only [shlItems,shlItem_lowest s buf item first,Option.bind_none]

-- ' ', ':' and '\n' come out as the numbers of the characters.
def tail (st : LogStatement) : String := " - " ++ basename st.file ++ "58" ++ st.line.repr ++ "10"

theorem finish_adds (buf : Nat → Char) (st : LogStatement) (s : LogStream) : Adds s (finish buf st s) (tail st) := by
  obtain ⟨first,colon,one⟩ := shlChar_adds ((s.shlString " - ").shlString (basename st.file)) buf ':' (by decide)
  obtain ⟨second,line,two⟩ := formatInteger_unsigned st.held (by decide) first buf
  obtain ⟨third,newline,three⟩ := shlChar_adds second buf '\n' (by decide)
  refine ⟨third,?_,?_⟩
  · have lined : first.shl .int buf st.line = some second := line
    simp only [finish,colon,lined,newline,Option.bind_eq_bind,Option.bind_some]
  · rw [three,two,one]
    change s.buffer ++ " - " ++ basename st.file ++ "58" ++ st.line.repr ++ "10" = _
    simp only [tail,String.append_assoc]

-- What g_output gets.
def lineText (time : Int) (st : LogStatement) : String := head time st ++ itemsText st.items ++ tail st

variable {Tid : Type} [DecidableEq Tid] {s after : Logging Tid} {t : Tid}

theorem log_line (strerror : Int → String) (buf : Nat → Char) (zone : ∀ seconds, (localtime seconds).Documented)
    (cached : Cached (s.threads t)) (passing : s.passes st = true) (timed : Timed (s.threads t) time)
    (formats : ∀ item ∈ st.items, item.Formats) :
    ∃ later, s.log localtime strerror buf t time st = some {s with
      threads := Function.update s.threads t later
      output := s.output ++ [lineText time st]
      flushed := s.flushed || decide (st.which.level = .FATAL)
      aborted := decide (st.which.level = .FATAL)} ∧ Cached later := by
  obtain ⟨later,first,made,kept,begun⟩ := logger_adds strerror buf st zone cached timed
  obtain ⟨second,shown,middle⟩ := shlItems_adds buf formats first
  obtain ⟨third,done,last⟩ := finish_adds buf st second
  refine ⟨later,?_,kept⟩
  simp only [log,passing,made,shown,done,last,middle,begun,lineText,if_true,Option.bind_eq_bind,Option.bind_some]

theorem log_nothing (zone : ∀ seconds, (localtime seconds).Documented) (cached : Cached (s.threads t)) (passing : s.passes st = true)
    (failing : ¬(Timed (s.threads t) time ∧ ∀ item ∈ st.items, item.Formats)) : s.log localtime strerror buf t time st = none := by
  unfold log
  rw [if_pos passing]
  by_cases timed : Timed (s.threads t) time
  · obtain ⟨later,first,made,_,_⟩ := logger_adds strerror buf st zone cached timed
    have lowest := shlItems_lowest buf (fun formats => failing ⟨timed,formats⟩) first
    simp only [made,lowest,Option.bind_eq_bind,Option.bind_some,Option.bind_none]
  · simp only [logger,impl,formatTime_throws zone cached timed,Option.bind_eq_bind,Option.bind_none]

-- The line of a statement that the gate lets pass.
def lines (s : Logging Tid) (label : Label Tid) (_ : Logging Tid) : List String :=
  match label with
  | .log _ time _ st => if s.passes st then [lineText time st] else []
  | .setLogLevel _ => []

theorem step_lines {label : Label Tid} (zone : ∀ seconds, (localtime seconds).Documented) (old : ∀ t, Cached (s.threads t))
    (taken : s.next localtime strerror label = some after) :
    (∀ t, Cached (after.threads t)) ∧ after.output = s.output ++ lines s label after := by
  cases label with
  | setLogLevel level =>
    simp only [next] at taken
    split at taken
    · cases taken
    · cases taken
      exact ⟨old,(List.append_nil _).symm⟩
  | log t time buf st =>
    simp only [next] at taken
    split at taken
    · cases taken
    · by_cases passing : s.passes st = true
      · by_cases able : Timed (s.threads t) time ∧ ∀ item ∈ st.items, item.Formats
        · obtain ⟨later,done,kept⟩ := log_line strerror buf zone (old t) passing able.1 able.2
          rw [done] at taken
          cases taken
          refine ⟨?_,by rw [lines,if_pos passing]⟩
          exact (Function.forall_update_iff s.threads fun _ th => Cached th).mpr ⟨kept,fun u _ => old u⟩
        · rw [log_nothing zone (old t) passing able] at taken
          cases taken
      · rw [log,if_neg passing] at taken
        cases taken
        exact ⟨old,by rw [lines,if_neg passing,List.append_nil]⟩

theorem run_lines {labels : List (Label Tid)} {final : Logging Tid} (zone : ∀ seconds, (localtime seconds).Documented)
    (old : ∀ t, Cached (s.threads t)) (ran : (machine Tid localtime strerror).run s labels = some final) :
    (∀ t, Cached (final.threads t)) ∧ final.output = s.output ++ (machine Tid localtime strerror).trace lines s labels := by
  induction labels generalizing s with
  | nil =>
    cases Option.some.inj ran
    exact ⟨old,(List.append_nil _).symm⟩
  | cons label rest ih =>
    obtain ⟨middle,taken,ran⟩ := Machine.run_cons_parts ran
    obtain ⟨kept,one⟩ := step_lines zone old taken
    obtain ⟨ended,more⟩ := ih kept ran
    refine ⟨ended,?_⟩
    rw [more,one,Machine.trace_cons taken,List.append_assoc]

-- Each statement that passes the gate is one call of g_output with its texts,
-- the file's base name and the line; the time and the level are in none.
theorem output_is_lines {labels : List (Label Tid)} {final : Logging Tid} (zone : ∀ seconds, (localtime seconds).Documented)
    (origin : (machine Tid localtime strerror).start s) (ran : (machine Tid localtime strerror).run s labels = some final) :
    final.output = (machine Tid localtime strerror).trace lines s labels ∧
    ∀ t time buf st, final.aborted = false → final.passes st = true →
      ((final.next localtime strerror (.log t time buf st)).isSome = true ↔
        Timed (final.threads t) time ∧ ∀ item ∈ st.items, item.Formats) := by
  have begun : ∀ t, Cached (s.threads t) := by
    rw [origin]
    exact fun _ => .inl ⟨rfl,rfl⟩
  obtain ⟨cached,text⟩ := run_lines zone begun ran
  refine ⟨?_,fun t time buf st alive passing => ?_⟩
  · rw [text,origin]
    rfl
  · simp only [next,alive,Bool.false_eq_true,if_false]
    constructor
    · intro done
      by_contra failing
      rw [log_nothing zone (cached t) passing failing] at done
      cases done
    · intro able
      obtain ⟨later,done,_⟩ := log_line strerror buf zone (cached t) passing able.1 able.2
      rw [done]
      rfl

-- Acceptor::handleRead after a failed accept, and a trace that the gate stops.
def acceptFails : LogStatement := ⟨.LOG_SYSERR,"net/Acceptor.cpp",47,"handleRead",[.cstring (some "in Acceptor::handleRead")],by decide⟩

def removal : LogStatement := ⟨.LOG_TRACE,"net/TcpServer.cpp",186,"removeConnectionInLoop",[],by decide⟩

theorem accept_failure_line : ∃ final, (machine Unit (fun _ => ⟨126,0,1,0,0,0⟩) fun _ => "").run new
      [.log () 1767225600000000 (fun _ => ' ') acceptFails,.log () 1767225600000001 (fun _ => ' ') removal] = some final ∧
    final.output = ["in Acceptor::handleRead - Acceptor.cpp584710"] := by
  have zone : ∀ _ : Int, (⟨126,0,1,0,0,0⟩ : Tm).Documented := fun _ => by constructor <;> decide
  obtain ⟨final,ran⟩ : ∃ final, (machine Unit (fun _ => ⟨126,0,1,0,0,0⟩) fun _ => "").run new
      [.log () 1767225600000000 (fun _ => ' ') acceptFails,.log () 1767225600000001 (fun _ => ' ') removal] = some final := ⟨_,rfl⟩
  exact ⟨final,ran,(output_is_lines zone rfl ran).1⟩

end Logging
end NewMuduo
