import CppServerStudio.NetWork.Channel

/-!
# What the poller is asked for

A channel is registered with the kernel by the first of its calls, and again by the first one behind
a `DeleteChannel`. Whether that is so is kept in `in_epoll_`, which is set whatever `epoll_ctl`
answers. The mask goes through a `short`.

## Main definitions

* `Epoller.deleteChannel`: the fourth call on a channel, beside those of `Channel`
* `Interest`, `EpollCtl.perform`: the kernel's entry for the descriptor
* `Watch.after`: the channel and the entry behind a sequence of calls
* `AsRequested`: each ADD or MOD has the mask that was asked for, and is the right one of the two
* `Undisturbed`: a condition on the calls and the answers to them

## Main results

* `Watch.listenEvents_after`: what a channel listens for is the union, in 16 bits
* `asRequested_iff`: the sequences of calls in which each ADD and MOD is as requested
-/

namespace CppServerStudio

/-- `Epoller::DeleteChannel`, which makes the call `EPOLL_CTL_DEL`. -/
def Epoller.deleteChannel (ch : Channel) : Channel := { ch with inEpoll := false }

/-- The calls on a channel, or on its loop for it. -/
inductive ChannelCall
  | enableRead
  | enableWrite
  | enableET
  | deleteChannel
  deriving DecidableEq, Repr

namespace ChannelCall

/-- What a call asks for. -/
def mask : ChannelCall → BitVec 32
  | enableRead => EPOLLIN ||| EPOLLPRI
  | enableWrite => EPOLLOUT
  | enableET => EPOLLET
  | deleteChannel => 0

/-- The channel behind a call, and its ADD or MOD; the other call there is is DEL. -/
def act (ch : Channel) : ChannelCall → Channel × Option EpollCtl
  | enableRead => ch.enableRead.map id some
  | enableWrite => ch.enableWrite.map id some
  | enableET => ch.enableET.map id some
  | deleteChannel => (Epoller.deleteChannel ch, none)

end ChannelCall

/-- The kernel's entry for a descriptor: the mask, if it is registered. -/
abbrev Interest := Option (BitVec 32)

/-- What `epoll_ctl` makes of the entry. It fails with `EEXIST` or `ENOENT` if ADD or MOD is the
wrong one, and may be refused otherwise, with `ENOMEM` or `ENOSPC`. -/
def EpollCtl.perform (refused : Bool) : EpollCtl → Interest → Interest
  | .add events, none => if refused then none else some events
  | .add _, some old => some old
  | .mod _, none => none
  | .mod events, some old => if refused then some old else some events

/-- A call, and whether the kernel refuses it. -/
structure PollerCall where
  call : ChannelCall
  refused : Bool := false
  deriving DecidableEq, Repr

/-- A channel, and the kernel's entry for its descriptor. -/
structure Watch where
  channel : Channel
  entry : Interest := none
  deriving DecidableEq

namespace Watch

def step (s : Watch) (x : PollerCall) : Watch :=
  match x.call.act s.channel with
  | (channel, some ctl) => { channel := channel, entry := ctl.perform x.refused s.entry }
  | (channel, none) => { channel := channel, entry := if x.refused then s.entry else none }

/-- A new channel behind these calls. -/
def after (fd : ℤ) (xs : List PollerCall) : Watch := xs.foldl step { channel := { fd := fd } }

end Watch

/-- **The union of the masks** that these calls ask for. -/
def requested (xs : List PollerCall) : BitVec 32 := xs.foldl (fun m x => m ||| x.call.mask) 0

/-- **Each ADD and MOD is as requested**: it has the union of the masks so far, and is an ADD if the
descriptor is not registered, a MOD if it is. -/
def AsRequested (fd : ℤ) (xs : List PollerCall) : Prop :=
  ∀ pre x post ctl, xs = pre ++ x :: post →
    (x.call.act (Watch.after fd pre).channel).2 = some ctl →
    ctl = if (Watch.after fd pre).entry = none then .add (requested (pre ++ [x]))
      else .mod (requested (pre ++ [x]))

/-- A call behind these is the first one that registers the channel, or the first one again. -/
def AddsNext (xs : List PollerCall) : Prop := ∀ x ∈ xs.getLast?, x.call = .deleteChannel

/-- **Undisturbed calls**: `EnableET` is not among them; behind an ADD that is refused comes no call
but `DeleteChannel`; and where `DeleteChannel` comes between two other calls, at least once it is
not refused, unless there was nothing to delete. -/
structure Undisturbed (xs : List PollerCall) : Prop where
  noET : ∀ x ∈ xs, x.call ≠ .enableET
  added : ∀ pre e x post, xs = pre ++ e :: x :: post → e.call ≠ .deleteChannel →
    x.call ≠ .deleteChannel → AddsNext pre → e.refused = false
  deleted : ∀ pre e ds x post, xs = pre ++ e :: (ds ++ x :: post) → e.call ≠ .deleteChannel →
    x.call ≠ .deleteChannel → ds ≠ [] → (∀ d ∈ ds, d.call = .deleteChannel) →
    (∃ d ∈ ds, d.refused = false) ∨ AddsNext pre ∧ e.refused = true

variable {fd : ℤ} {xs pre ds : List PollerCall} {x e : PollerCall}

/-! ## Masks -/

theorem requested_append_singleton (xs : List PollerCall) (x : PollerCall) :
    requested (xs ++ [x]) = requested xs ||| x.call.mask := by
  rw [requested, List.foldl_append]
  rfl

/-- The union has the bits of its masks. -/
theorem getLsbD_requested (xs : List PollerCall) (i : ℕ) :
    (requested xs).getLsbD i = true ↔ ∃ x ∈ xs, x.call.mask.getLsbD i = true := by
  induction xs using List.reverseRecOn with
  | nil => simp [requested]
  | append_singleton xs x ih =>
    rw [requested_append_singleton, BitVec.getLsbD_or, Bool.or_eq_true, ih]
    simp [or_and_right, exists_or]

/-- A mask in a `short`, and 32 bits again. -/
def narrow (m : BitVec 32) : BitVec 32 := (m.setWidth 16).signExtend 32

/-- Above the first three bits there is only that of `EPOLLET`. -/
theorem getLsbD_mask (call : ChannelCall) {i : ℕ} (hi : 3 ≤ i) :
    call.mask.getLsbD i = true ↔ i = 31 ∧ call = .enableET := by
  have hlow : ∀ m : BitVec 32, m.toNat < 2 ^ 3 → m.getLsbD i = false := fun m hm =>
    Nat.testBit_lt_two_pow (hm.trans_le (Nat.pow_le_pow_right (by decide) hi))
  cases call with
  | enableET =>
    rw [show ChannelCall.enableET.mask = BitVec.twoPow 32 31 from rfl, BitVec.getLsbD_twoPow]
    simp [eq_comm]
  | enableRead | enableWrite | deleteChannel =>
    rw [hlow _ (by decide)]
    simp

/-- **The bit of `EPOLLET`** is the one that a `short` has no place for. -/
theorem narrow_requested_iff (xs : List PollerCall) :
    narrow (requested xs) = requested xs ↔ ∀ x ∈ xs, x.call ≠ .enableET := by
  -- the sign of the `short` is not set
  have hsign : (requested xs).getLsbD 15 = false := by
    rw [Bool.eq_false_iff, Ne, getLsbD_requested]
    rintro ⟨x, -, hbit⟩
    exact absurd ((getLsbD_mask x.call (by decide)).mp hbit).1 (by decide)
  have hmsb : ((requested xs).setWidth 16).msb = false := by
    rw [BitVec.msb_eq_getLsbD_last, BitVec.getLsbD_setWidth, hsign, Bool.and_false]
  have hnarrow (i : ℕ) : (narrow (requested xs)).getLsbD i =
      (decide (i < 16) && (requested xs).getLsbD i) := by
    rw [narrow, BitVec.signExtend_eq_setWidth_of_msb_false hmsb, BitVec.getLsbD_setWidth,
      BitVec.getLsbD_setWidth, ← Bool.and_assoc, ← Bool.decide_and]
    congr 2
    apply propext
    omega
  constructor
  · intro heq x hx hET
    have hbit : (requested xs).getLsbD 31 = true :=
      (getLsbD_requested xs 31).mpr ⟨x, hx, (getLsbD_mask x.call (by decide)).mpr ⟨rfl, hET⟩⟩
    rw [← heq, hnarrow] at hbit
    cases hbit
  · intro hno
    apply BitVec.eq_of_getLsbD_eq
    intro i hi
    rw [hnarrow]
    by_cases hlt : i < 16
    · simp [hlt]
    · rw [decide_eq_false hlt, Bool.false_and, eq_comm, Bool.eq_false_iff, Ne, getLsbD_requested]
      rintro ⟨x, hx, hbit⟩
      exact hno x hx ((getLsbD_mask x.call (by omega)).mp hbit).2

/-- `listen_events_ |= flags` adds the low bits of the flags. -/
theorem Channel.enable_listenEvents (ch : Channel) (flags : BitVec 32) :
    (ch.enable flags).listenEvents = ch.listenEvents ||| flags.setWidth 16 := by
  apply BitVec.eq_of_getLsbD_eq
  intro i hi
  have hi' : i < 32 := by omega
  rw [Channel.enable, BitVec.getLsbD_setWidth, BitVec.getLsbD_or, BitVec.getLsbD_or,
    BitVec.getLsbD_signExtend, BitVec.getLsbD_setWidth, if_pos hi]
  simp [hi, hi']

/-! ## Calls -/

/-- Any call but `DeleteChannel` adds its mask, and updates. -/
theorem ChannelCall.act_of_ne {call : ChannelCall} (h : call ≠ .deleteChannel) (ch : Channel) :
    call.act ch = (Epoller.updateChannel (ch.enable call.mask)).map id some := by
  cases call with
  | enableRead => rfl
  | enableWrite => rfl
  | enableET => rfl
  | deleteChannel => exact absurd rfl h

namespace Watch

theorem after_append_singleton (fd : ℤ) (xs : List PollerCall) (x : PollerCall) :
    after fd (xs ++ [x]) = (after fd xs).step x := by
  rw [after, List.foldl_append]
  rfl

/-- **What a channel listens for** is the union of the masks, in 16 bits. -/
theorem listenEvents_after (fd : ℤ) (xs : List PollerCall) :
    (after fd xs).channel.listenEvents = (requested xs).setWidth 16 := by
  -- Induction on the calls, from the last one.
  induction xs using List.reverseRecOn with
  | nil => rfl
  | append_singleton xs x ih =>
    rw [after_append_singleton, requested_append_singleton, BitVec.setWidth_or, ← ih]
    by_cases hx : x.call = .deleteChannel
    · rw [step, hx]
      simp [ChannelCall.act, Epoller.deleteChannel, ChannelCall.mask]
    · rw [step, ChannelCall.act_of_ne hx, ← Channel.enable_listenEvents]
      exact (Channel.updateChannel_events _).1

/-- `in_epoll_` says whether the last call was another one than `DeleteChannel`. -/
theorem inEpoll_after (fd : ℤ) (xs : List PollerCall) :
    (after fd xs).channel.inEpoll = true ↔ ¬ AddsNext xs := by
  rcases List.eq_nil_or_concat xs with rfl | ⟨xs, x, rfl⟩
  · simp [after, AddsNext]
  · rw [List.concat_eq_append, after_append_singleton, AddsNext, List.getLast?_concat]
    by_cases hx : x.call = .deleteChannel
    · simp [step, hx, ChannelCall.act, Epoller.deleteChannel]
    · rw [step, ChannelCall.act_of_ne hx]
      simp only [Epoller.updateChannel]
      split_ifs <;> simp_all

/-- The ADD or MOD of a call. -/
theorem issued_of_ne (hx : x.call ≠ .deleteChannel) (fd : ℤ) (pre : List PollerCall) :
    (x.call.act (after fd pre).channel).2 =
      some (if (after fd pre).channel.inEpoll then .mod (narrow (requested (pre ++ [x])))
        else .add (narrow (requested (pre ++ [x])))) := by
  have hmask : ((after fd pre).channel.enable x.call.mask).listenEvents =
      (requested (pre ++ [x])).setWidth 16 := by
    rw [Channel.enable_listenEvents, listenEvents_after, ← BitVec.setWidth_or,
      ← requested_append_singleton]
  rw [ChannelCall.act_of_ne hx, Epoller.updateChannel, hmask]
  by_cases hin : (after fd pre).channel.inEpoll = true
  · simp [Channel.enable, hin, narrow]
  · simp [Channel.enable, hin, narrow]

/-! ## The entry of the kernel -/

theorem entry_of_ne (hx : x.call ≠ .deleteChannel) (fd : ℤ) (pre : List PollerCall) :
    (after fd (pre ++ [x])).entry =
      (if (after fd pre).channel.inEpoll then EpollCtl.mod (narrow (requested (pre ++ [x])))
        else .add (narrow (requested (pre ++ [x])))).perform x.refused (after fd pre).entry := by
  have hissued := issued_of_ne hx fd pre
  rw [after_append_singleton, step]
  split
  · rename_i hact
    rw [hact, Option.some.injEq] at hissued
    rw [hissued]
  · rename_i hact
    rw [hact] at hissued
    cases hissued

/-- The right call leaves no entry only where it is an ADD that is refused. -/
theorem entry_eq_none_of_ne (hx : x.call ≠ .deleteChannel)
    (h : AddsNext pre ↔ (after fd pre).entry = none) :
    (after fd (pre ++ [x])).entry = none ↔ AddsNext pre ∧ x.refused = true := by
  have hin := inEpoll_after fd pre
  rw [entry_of_ne hx]
  by_cases hadds : AddsNext pre
  · rw [if_neg (fun h' => hin.mp h' hadds), h.mp hadds]
    cases x.refused with
    | true => simp [EpollCtl.perform, hadds]
    | false => simp [EpollCtl.perform]
  · rw [if_pos (hin.mpr hadds)]
    obtain ⟨old, hold⟩ := Option.ne_none_iff_exists'.mp fun h' => hadds (h.mpr h')
    rw [hold]
    cases x.refused with
    | true => simp [EpollCtl.perform, hadds]
    | false => simp [EpollCtl.perform]

/-- Behind `DeleteChannel` calls there is no entry if there was none before, or one call was not
refused. -/
theorem entry_eq_none_of_deletes (hds : ∀ d ∈ ds, d.call = .deleteChannel) (fd : ℤ)
    (pre : List PollerCall) : (after fd (pre ++ ds)).entry = none ↔
      (after fd pre).entry = none ∨ ∃ d ∈ ds, d.refused = false := by
  -- Induction on the calls, from the last one.
  induction ds using List.reverseRecOn with
  | nil => simp
  | append_singleton ds d ih =>
    have hd : d.call = .deleteChannel := hds d (by simp)
    rw [← List.append_assoc, after_append_singleton, step, hd]
    change (if d.refused then (after fd (pre ++ ds)).entry else none) = none ↔ _
    cases hrefused : d.refused with
    | true =>
      rw [if_pos rfl, ih fun d' hd' => hds d' (by simp [hd'])]
      simp [or_and_right, exists_or, hrefused]
    | false => simp [hrefused]

end Watch

/-! ## The calls that are as requested -/

/-- What is asked of one call that is no `DeleteChannel`. -/
theorem asRequested_iff_calls : AsRequested fd xs ↔
    ∀ pre x post, xs = pre ++ x :: post → x.call ≠ .deleteChannel →
      narrow (requested (pre ++ [x])) = requested (pre ++ [x]) ∧
      (AddsNext pre ↔ (Watch.after fd pre).entry = none) := by
  constructor
  · intro h pre x post heq hx
    have hctl := h pre x post _ heq (Watch.issued_of_ne hx fd pre)
    have hin := Watch.inEpoll_after fd pre
    -- ADD or MOD goes by `in_epoll_`, what is right by the kernel's entry
    by_cases hadds : AddsNext pre
    · rw [if_neg fun h' => hin.mp h' hadds] at hctl
      by_cases hnone : (Watch.after fd pre).entry = none
      · rw [if_pos hnone] at hctl
        exact ⟨EpollCtl.add.inj hctl, iff_of_true hadds hnone⟩
      · rw [if_neg hnone] at hctl
        cases hctl
    · rw [if_pos (hin.mpr hadds)] at hctl
      by_cases hnone : (Watch.after fd pre).entry = none
      · rw [if_pos hnone] at hctl
        cases hctl
      · rw [if_neg hnone] at hctl
        exact ⟨EpollCtl.mod.inj hctl, iff_of_false hadds hnone⟩
  · intro h pre x post ctl heq hctl
    have hx : x.call ≠ .deleteChannel := by
      intro hx
      rw [hx] at hctl
      cases hctl
    obtain ⟨hmask, hadds⟩ := h pre x post heq hx
    rw [Watch.issued_of_ne hx, hmask, Option.some.injEq] at hctl
    have hin := Watch.inEpoll_after fd pre
    rw [← hctl]
    by_cases hnone : (Watch.after fd pre).entry = none
    · rw [if_pos hnone, if_neg fun h' => hin.mp h' (hadds.mpr hnone)]
    · rw [if_neg hnone, if_pos (hin.mpr fun h' => hnone (hadds.mp h'))]

/-- A sequence of calls ends in `DeleteChannel` calls, behind another call if there is one. -/
theorem eq_deletes_or_append (xs : List PollerCall) : (∀ d ∈ xs, d.call = .deleteChannel) ∨
    ∃ pre e ds, xs = pre ++ e :: ds ∧ e.call ≠ .deleteChannel ∧
      ∀ d ∈ ds, d.call = .deleteChannel := by
  induction xs using List.reverseRecOn with
  | nil => exact .inl (by simp)
  | append_singleton xs x ih =>
    by_cases hx : x.call = .deleteChannel
    · rcases ih with hall | ⟨pre, e, ds, rfl, he, hds⟩
      · exact .inl (by simpa [or_imp, forall_and, hx] using hall)
      · refine .inr ⟨pre, e, ds ++ [x], by simp, he, ?_⟩
        simpa [or_imp, forall_and, hx] using hds
    · exact .inr ⟨xs, x, [], rfl, hx, by simp⟩

/-- Behind `DeleteChannel` calls that follow another call, the next call is an ADD if there are
any. -/
theorem addsNext_append (he : e.call ≠ .deleteChannel) (hds : ∀ d ∈ ds, d.call = .deleteChannel)
    (pre : List PollerCall) : AddsNext (pre ++ e :: ds) ↔ ds ≠ [] := by
  rcases List.eq_nil_or_concat ds with rfl | ⟨ds, d, rfl⟩
  · simp [AddsNext, he]
  · simp only [List.concat_eq_append] at hds ⊢
    rw [AddsNext, ← List.cons_append, ← List.append_assoc, List.getLast?_concat]
    simpa using hds d (by simp)

/-- The right call `e` and the `DeleteChannel` calls `ds` behind it leave no entry. -/
theorem entry_eq_none_append (he : e.call ≠ .deleteChannel)
    (hds : ∀ d ∈ ds, d.call = .deleteChannel)
    (h : AddsNext pre ↔ (Watch.after fd pre).entry = none) :
    (Watch.after fd (pre ++ e :: ds)).entry = none ↔
      (∃ d ∈ ds, d.refused = false) ∨ AddsNext pre ∧ e.refused = true := by
  rw [List.append_cons, Watch.entry_eq_none_of_deletes hds, Watch.entry_eq_none_of_ne he h, or_comm]

/-- Calls that are undisturbed make an ADD exactly where there is no entry. -/
theorem Undisturbed.addsNext_iff (h : Undisturbed xs) (fd : ℤ) {post : List PollerCall}
    (heq : xs = pre ++ x :: post) (hx : x.call ≠ .deleteChannel) :
    AddsNext pre ↔ (Watch.after fd pre).entry = none := by
  -- Induction on the number of calls before.
  induction hn : pre.length using Nat.strong_induction_on generalizing pre x post with
  | _ n ih =>
    subst hn
    rcases eq_deletes_or_append pre with hall | ⟨p, e, ds, rfl, he, hds⟩
    · have hnone := (Watch.entry_eq_none_of_deletes hall fd []).mpr (.inl rfl)
      refine iff_of_true (fun d hd => hall d (List.mem_of_getLast? hd)) ?_
      rwa [List.nil_append] at hnone
    · rw [List.append_assoc, List.cons_append] at heq
      have hright := ih p.length (by simp) heq he rfl
      rw [addsNext_append he hds, entry_eq_none_append he hds hright]
      by_cases hnil : ds = []
      · subst hnil
        refine iff_of_false (fun h' => h' rfl) ?_
        rintro (⟨d, hd, -⟩ | ⟨hadds, hrefused⟩)
        · simp at hd
        · rw [h.added p e x post heq he hx hadds] at hrefused
          cases hrefused
      · exact iff_of_true hnil (h.deleted p e ds x post heq he hx hnil hds)

/-- **Each ADD and MOD is as requested** exactly if the calls are undisturbed. -/
theorem asRequested_iff (fd : ℤ) (xs : List PollerCall) : AsRequested fd xs ↔ Undisturbed xs := by
  rw [asRequested_iff_calls]
  constructor
  · intro h
    constructor
    · intro x hx hET
      obtain ⟨pre, post, heq⟩ := List.append_of_mem hx
      have hmask := (h pre x post heq (by simp [hET])).1
      exact (narrow_requested_iff _).mp hmask x (by simp) hET
    -- the call behind an ADD that is refused is the MOD of a missing entry
    · intro pre e x post heq he hx hadds
      have hright := (h pre e (x :: post) heq he).2
      have hnext := (h (pre ++ [e]) x post (by simp [heq]) hx).2
      rw [addsNext_append he (by simp), entry_eq_none_append he (by simp) hright] at hnext
      by_contra hrefused
      exact hnext.mpr (.inr ⟨hadds, by simpa using hrefused⟩) rfl
    · intro pre e ds x post heq he hx hnil hds
      have hright := (h pre e _ heq he).2
      have hnext := (h (pre ++ e :: ds) x post (by simp [heq]) hx).2
      rw [addsNext_append he hds, entry_eq_none_append he hds hright] at hnext
      exact hnext.mp hnil
  · intro h pre x post heq hx
    refine ⟨(narrow_requested_iff _).mpr fun y hy => h.noET y ?_, h.addsNext_iff fd heq hx⟩
    rw [heq]
    simp only [List.mem_append, List.mem_cons, List.not_mem_nil, or_false] at hy ⊢
    exact hy.imp_right .inl

/-- `EnableET` alone registers the channel with no flag. -/
theorem not_asRequested : ¬ ∀ (fd : ℤ) (xs : List PollerCall), AsRequested fd xs := by
  intro h
  have hadd := h 7 [⟨.enableET, false⟩] [] ⟨.enableET, false⟩ [] (.add 0) rfl rfl
  revert hadd
  decide

end CppServerStudio
