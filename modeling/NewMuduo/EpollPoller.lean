import NewMuduo.Channel
import NewMuduo.Machine
import Mathlib.Logic.Function.Basic

namespace NewMuduo

-- One entry of the kernel's list behind epollfd_: the mask and data.ptr.
structure Interest (ι : Type) where
  events : BitVec 32
  ptr : ι
  deriving DecidableEq, Repr

-- net/EpollPoller.cpp with the kernel's list. Channels are named by an
-- arbitrary type, the Channel* of the source. epoll_ctl is taken to succeed,
-- and the asserts are compiled out.
structure EPollPoller (ι : Type) where
  channels : Nat → Option ι
  interest : Nat → Option (Interest ι)

namespace EPollPoller
variable {ι : Type} {p : EPollPoller ι} {c : Channel}

def new : EPollPoller ι := ⟨fun _ => none,fun _ => none⟩

inductive Operation where
  | EPOLL_CTL_ADD
  | EPOLL_CTL_MOD
  | EPOLL_CTL_DEL
  deriving DecidableEq, Repr

def epoll_ctl (p : EPollPoller ι) (operation : Operation) (fd : Nat) (event : Interest ι) : EPollPoller ι :=
  match operation with
  | .EPOLL_CTL_ADD | .EPOLL_CTL_MOD => {p with interest := Function.update p.interest fd (some event)}
  | .EPOLL_CTL_DEL => {p with interest := Function.update p.interest fd none}

-- The mask that update registers.
def mask (c : Channel) : BitVec 32 := if c.et then c.events ||| EPOLLET else c.events

def update (p : EPollPoller ι) (operation : Operation) (ptr : ι) (c : Channel) : EPollPoller ι × Channel :=
  (p.epoll_ctl operation c.fd ⟨mask c,ptr⟩,
    {c with index := match operation with
      | .EPOLL_CTL_ADD => 1
      | .EPOLL_CTL_DEL => -1
      | .EPOLL_CTL_MOD => 2})

def updateChannel (p : EPollPoller ι) (ptr : ι) (c : Channel) : EPollPoller ι × Channel :=
  if c.index < 0 then
    {p with channels := Function.update p.channels c.fd (some ptr)}.update .EPOLL_CTL_ADD ptr c
  else if c.isNoneEvent then
    let (p,c) := p.update .EPOLL_CTL_DEL ptr c
    (p,{c with index := -1})
  else p.update .EPOLL_CTL_MOD ptr c

def removeChannel (p : EPollPoller ι) (ptr : ι) (c : Channel) : EPollPoller ι × Channel :=
  let index := c.index
  let p := {p with channels := Function.update p.channels c.fd none}
  let (p,c) := if index = 2 then p.update .EPOLL_CTL_DEL ptr c else (p,c)
  (p,{c with index := -1})

-- Channel::remove, which the loop passes on.
def remove (p : EPollPoller ι) (ptr : ι) (c : Channel) : EPollPoller ι × Channel :=
  p.removeChannel ptr {c with addedToLoop := false}

-- The three ways updateChannel can go, by the index and the requested events.
theorem updateChannel_add (ptr : ι) (c : Channel) (fresh : c.index < 0) :
    p.updateChannel ptr c = (⟨Function.update p.channels c.fd (some ptr),
      Function.update p.interest c.fd (some ⟨mask c,ptr⟩)⟩,{c with index := 1}) := by
  rw [updateChannel,if_pos fresh]; rfl

theorem updateChannel_del (ptr : ι) (c : Channel) (known : 0 ≤ c.index) (empty : c.events = kNoneEvent) :
    p.updateChannel ptr c = ({p with interest := Function.update p.interest c.fd none},
      {c with index := -1}) := by
  rw [updateChannel,if_neg (by omega),if_pos (Channel.isNoneEvent_iff.mpr empty)]; rfl

theorem updateChannel_mod (ptr : ι) (c : Channel) (known : 0 ≤ c.index) (nonempty : c.events ≠ kNoneEvent) :
    p.updateChannel ptr c = ({p with interest := Function.update p.interest c.fd (some ⟨mask c,ptr⟩)},
      {c with index := 2}) := by
  rw [updateChannel,if_neg (by omega),if_neg (by simpa [Channel.isNoneEvent_iff] using nonempty)]; rfl

-- The entries of other descriptors stay.
theorem updateChannel_elsewhere (p : EPollPoller ι) (ptr : ι) (c : Channel) {f : Nat} (other : f ≠ c.fd) :
    (p.updateChannel ptr c).1.channels f = p.channels f ∧ (p.updateChannel ptr c).1.interest f = p.interest f := by
  by_cases fresh : c.index < 0
  · rw [updateChannel_add ptr c fresh]
    exact ⟨Function.update_of_ne other _ _,Function.update_of_ne other _ _⟩
  · have known : 0 ≤ c.index := by omega
    by_cases empty : c.events = kNoneEvent
    · rw [updateChannel_del ptr c known empty]
      exact ⟨rfl,Function.update_of_ne other _ _⟩
    · rw [updateChannel_mod ptr c known empty]
      exact ⟨rfl,Function.update_of_ne other _ _⟩

@[simp] theorem updateChannel_events (p : EPollPoller ι) (ptr : ι) (c : Channel) :
    (p.updateChannel ptr c).2.events = c.events := by
  unfold updateChannel
  split
  · rfl
  · split <;> rfl

@[simp] theorem updateChannel_added (p : EPollPoller ι) (ptr : ι) (c : Channel) :
    (p.updateChannel ptr c).2.addedToLoop = c.addedToLoop := by
  unfold updateChannel
  split
  · rfl
  · split <;> rfl

theorem remove_unregistered (ptr : ι) (fresh : c.index < 0) :
    p.remove ptr c = ({p with channels := Function.update p.channels c.fd none},
      {c with index := -1,addedToLoop := false}) := by
  have other : c.index ≠ 2 := by omega
  simp [remove,removeChannel,other]

theorem remove_channels (ptr : ι) : (p.remove ptr c).1.channels = Function.update p.channels c.fd none := by
  by_cases modified : c.index = 2 <;> simp [remove,removeChannel,modified,update,epoll_ctl]

@[simp] theorem remove_events (ptr : ι) : (p.remove ptr c).2.events = c.events := by
  by_cases modified : c.index = 2 <;> simp [remove,removeChannel,modified,update]

end EPollPoller
end NewMuduo
