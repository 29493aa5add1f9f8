import MockAmqp.Footprint

/-!
# One channel at a time

The treatment of a frame of a channel, seen from the state the channel is in.
-/

namespace MockAmqp
open Exec

/-- The channel as a frame finds it, created when it is missing. -/
def Broker.channel (b : Broker) (c : ConnId) (n : Nat) : Channel :=
  ((b.trackers c).channels.get? n).getD (newChannel n)

def Broker.channelIsOpened (b : Broker) (c : ConnId) (n : Nat) : Bool :=
  (b.channel c n).state = .opened

/-- After the frame has been taken from the buffer and its channel looked up. -/
def Broker.received (b : Broker) (c : ConnId) (f : FrameValue) : Broker :=
  let b1 := { b with trace := b.trace ++ [.frame c (b.trackers c).parserState f] }
  if (b.trackers c).channels.contains f.channelNumber then b1
  else b1.setTracker c { b.trackers c with
    channels := (b.trackers c).channels.insert f.channelNumber (newChannel f.channelNumber) }

section
variable {env : Env} {c : ConnId} {f : FrameValue} {b : Broker}

variable (b) in
@[simp] theorem Broker.received_trace : (b.received c f).trace =
    b.trace ++ [.frame c (b.trackers c).parserState f] := by
  unfold Broker.received
  split <;> rfl

variable (b) in
@[simp] theorem Broker.received_state : (b.received c f).state = b.state := by
  unfold Broker.received
  split <;> rfl

@[simp] theorem Broker.received_parserState :
    ((b.received c f).trackers c).parserState = (b.trackers c).parserState := by
  unfold Broker.received
  split
  · rfl
  · rw [Broker.setTracker_self]

theorem Broker.received_ne {c' : ConnId} (h : c' ≠ c) :
    (b.received c f).trackers c' = b.trackers c' := by
  unfold Broker.received
  split
  · rfl
  · exact Broker.setTracker_ne _ h _

theorem Broker.received_get? (n : Nat) : ((b.received c f).trackers c).channels.get? n =
    if n = f.channelNumber then some (b.channel c f.channelNumber)
    else (b.trackers c).channels.get? n := by
  unfold Broker.received Broker.channel
  cases h : (b.trackers c).channels.get? f.channelNumber with
  | some channel =>
      simp only [OrderedDict.contains, h, Option.isSome_some, if_true, Option.getD_some]
      by_cases hn : n = f.channelNumber
      · rw [if_pos hn, hn, h]
      · rw [if_neg hn]
  | none =>
      simp [OrderedDict.contains, h]

/-- A frame of a channel goes to that channel. -/
theorem dispatch_channel (hn : f.channelNumber ≠ 0) :
    dispatch env c f b =
      (treatFrameOn env c (b.channel c f.channelNumber) f >>= fun _ => pure true)
        (b.received c f) := by
  have logged : log (.frame c (b.trackers c).parserState f) b =
      .ok () { b with trace := b.trace ++ [.frame c (b.trackers c).parserState f] } := rfl
  have upserted : upsertChannel c f.channelNumber
      { b with trace := b.trace ++ [.frame c (b.trackers c).parserState f] } =
      .ok () (b.received c f) := by
    unfold upsertChannel Broker.received
    by_cases present : (b.trackers c).channels.contains f.channelNumber = true
    · simp only [bind_apply, read_apply, present, not_true_eq_false, if_true, if_false,
        pure_apply]
    · rw [if_neg present]
      simp only [bind_apply, read_apply, present]
      rfl
  have found : getChannel c f.channelNumber (b.received c f) =
      .ok (b.channel c f.channelNumber) (b.received c f) := by
    unfold getChannel
    rw [Broker.received_get?, if_pos rfl]
  rw [dispatch_of_channel hn, bind_ok logged, bind_ok upserted]
  unfold treatChannelFrame
  simp only [bind_apply, found]

theorem after_dispatch_channel (hn : f.channelNumber ≠ 0) :
    after (dispatch env c f) b =
      after (treatFrameOn env c (b.channel c f.channelNumber) f) (b.received c f) :=
  (after_congr (dispatch_channel hn)).trans (after_bind_pure _ _ _)

theorem treatFrameOn_waitingOpen {channel : Channel} (h : channel.state = .waitingOpen)
    (hm : f.methodId ≠ some .channelOpen) : treatFrameOn env c channel f = close c := by
  unfold treatFrameOn
  rw [if_pos h, if_pos hm]

theorem treatFrameOn_opened {channel : Channel} (h : channel.state = .opened)
    (hm : f.methodId ≠ some .channelClose) : treatFrameOn env c channel f =
      treatOpenedChannelFrame env c f.channelNumber channel f := by
  unfold treatFrameOn
  rw [if_neg (by simp [h]), if_neg hm]
  simp only [h]

/-- In the middle of a publish, methods other than channel.close are passed over. -/
theorem treatFrameOn_publishing {channel : Channel} {m : MethodId}
    (h : channel.state = .waitingHeader ∨ channel.state = .waitingBody)
    (hm : f.methodId = some m) (hclose : m ≠ .channelClose) :
    treatFrameOn env c channel f = pure () := by
  have notClose : f.methodId ≠ some .channelClose := by
    rw [hm]
    exact fun same => hclose (Option.some.inj same)
  cases f with
  | method =>
      unfold treatFrameOn
      rcases h with h | h
      · rw [if_neg (by simp [h]), if_neg notClose]
        simp only [h]
      · rw [if_neg (by simp [h]), if_neg notClose]
        simp only [h]
        rfl
  | _ => cases hm

variable (env) in
/-- On a channel that is not opened, a method other than channel.open and channel.close leaves
its record and nothing else in the trace and in the state. -/
theorem dispatch_shut {m : MethodId} (hn : f.channelNumber ≠ 0) (hm : f.methodId = some m)
    (hopen : m ≠ .channelOpen) (hclose : m ≠ .channelClose)
    (shut : b.channelIsOpened c f.channelNumber = false) :
    (after (dispatch env c f) b).trace =
        b.trace ++ [.frame c (b.trackers c).parserState f] ∧
      (after (dispatch env c f) b).state = b.state := by
  have idle : treatFrameOn env c (b.channel c f.channelNumber) f = close c ∨
      treatFrameOn env c (b.channel c f.channelNumber) f = pure () := by
    cases h : (b.channel c f.channelNumber).state with
    | opened => simp [Broker.channelIsOpened, h] at shut
    | waitingOpen =>
        refine .inl (treatFrameOn_waitingOpen h ?_)
        rw [hm]
        exact fun same => hopen (Option.some.inj same)
    | waitingHeader => exact .inr (treatFrameOn_publishing (.inl h) hm hclose)
    | waitingBody => exact .inr (treatFrameOn_publishing (.inr h) hm hclose)
  rw [after_dispatch_channel hn, ← b.received_trace, ← b.received_state (c := c) (f := f)]
  rcases idle with closed | ignored
  · rw [closed]
    exact ⟨rfl, rfl⟩
  · rw [ignored]
    exact ⟨rfl, rfl⟩

end

end MockAmqp
