import MockAmqp.Frames

/-!
# What the frame reader waits for

`read_frame` returns nothing when the buffer does not hold a whole frame yet. It returns nothing
as well when it gets to the end of its tests on the type of a frame.
-/

namespace MockAmqp
open Exec

/-- The buffer begins with a whole frame of this size. -/
def HoldsFrame (data : Bytes) (frameSize : Nat) : Prop :=
  ∃ frameType channelNumber payloadSize,
    frameHead data = some (frameType, channelNumber, payloadSize) ∧
      frameSize = payloadSize + 8 ∧ frameSize ≤ data.length

/-- Nothing is returned exactly for a part of a frame; a whole one is returned with its size or
raises, and is never waited on, whatever follows it. -/
structure ReadsFaithfully (data : Bytes) : Prop where
  waits : readFrame data = .ok none ↔ ¬ ∃ n, HoldsFrame data n
  reads : ∀ n, HoldsFrame data n →
    (∃ f, readFrame data = .ok (some f) ∧ f.size = n) ∨ ∃ e, readFrame data = .error e
  moves : ∀ n, HoldsFrame data n → ∀ more, readFrame (data ++ more) ≠ .ok none

/-- The types of frames that `read_frame` tests for. -/
def knownTypes : List Nat := [1, 2, 3, 8]

section
variable {data : Bytes} {frameType channelNumber payloadSize frameSize : Nat}

theorem decodePayload_none_iff {payload : Bytes} :
    decodePayload frameType channelNumber frameSize payload = .ok none ↔
      frameType ∉ knownTypes := by
  constructor
  · intro none known
    unfold decodePayload at none
    split at none
    · obtain ⟨_, _, none⟩ := except_bind_eq_ok.mp none
      obtain ⟨_, _, none⟩ := except_bind_eq_ok.mp none
      cases none
    · next method =>
        split at none
        · cases none
        · next heartBeat =>
            split at none
            · obtain ⟨_, _, none⟩ := except_bind_eq_ok.mp none
              obtain ⟨_, _, none⟩ := except_bind_eq_ok.mp none
              obtain ⟨_, _, none⟩ := except_bind_eq_ok.mp none
              obtain ⟨_, _, none⟩ := except_bind_eq_ok.mp none
              cases none
            · next header =>
                split at none
                · cases none
                · next body => simp [knownTypes, method, heartBeat, header, body] at known
  · intro unknown
    simp only [knownTypes, List.mem_cons, List.not_mem_nil, or_false, not_or] at unknown
    obtain ⟨method, header, body, heartBeat⟩ := unknown
    unfold decodePayload
    rw [if_neg method, if_neg heartBeat, if_neg header, if_neg body]

/-- A whole frame is read by its marker and its payload. -/
theorem readFrame_holds (head : frameHead data = some (frameType, channelNumber, payloadSize))
    (whole : payloadSize + 8 ≤ data.length) : readFrame data =
      if slice data (payloadSize + 7) (payloadSize + 8) = [0xCE] then
        decodePayload frameType channelNumber (payloadSize + 8) (slice data 7 (payloadSize + 7))
      else .error (.invalidFrameError "Invalid FRAME_END marker") := by
  have size : 7 + payloadSize + 1 = payloadSize + 8 := by omega
  have last : payloadSize + 8 - 1 = payloadSize + 7 := by omega
  unfold readFrame
  simp only [head, size, last]
  rw [if_neg (by omega)]
  by_cases marker : slice data (payloadSize + 7) (payloadSize + 8) = [0xCE]
  · rw [if_neg (not_not_intro marker), if_pos marker]
  · rw [if_pos marker, if_neg marker]

theorem readFrame_waits (part : ¬ ∃ n, HoldsFrame data n) : readFrame data = .ok none := by
  unfold readFrame
  cases head : frameHead data with
  | none => rfl
  | some found =>
      obtain ⟨frameType, channelNumber, payloadSize⟩ := found
      dsimp only
      rw [if_pos]
      by_contra whole
      exact part ⟨payloadSize + 8, _, _, _, head, rfl, by omega⟩

theorem frameHead_length {found : Nat × Nat × Nat} (head : frameHead data = some found) :
    7 ≤ data.length := by
  unfold frameHead at head
  split at head
  · assumption
  · cases head

/-- Nothing is returned for a whole frame exactly if its type is unknown and its marker right. -/
theorem readFrame_none_iff (head : frameHead data = some (frameType, channelNumber, payloadSize))
    (whole : payloadSize + 8 ≤ data.length) : readFrame data = .ok none ↔
      slice data (payloadSize + 7) (payloadSize + 8) = [0xCE] ∧ frameType ∉ knownTypes := by
  rw [readFrame_holds head whole]
  split
  · next marker => rw [decodePayload_none_iff, and_iff_right marker]
  · next other => exact iff_of_false (fun no => by cases no) fun both => other both.1

/-- The frame at the front of a buffer stays there when more bytes arrive. -/
theorem readFrame_none_append
    (head : frameHead data = some (frameType, channelNumber, payloadSize))
    (whole : payloadSize + 8 ≤ data.length) (more : Bytes) :
    readFrame (data ++ more) = .ok none ↔ readFrame data = .ok none := by
  have longer : payloadSize + 8 ≤ (data ++ more).length := by
    rw [List.length_append]
    omega
  have same : frameHead (data ++ more) = some (frameType, channelNumber, payloadSize) :=
    (frameHead_append (frameHead_length head) more).trans head
  rw [readFrame_none_iff head whole, readFrame_none_iff same longer, slice_append whole]

end

/-- The frame reader reads faithfully exactly the buffers that do not begin with a whole frame of
an unknown type with a right marker. -/
theorem readsFaithfully_iff (data : Bytes) :
    ReadsFaithfully data ↔ ∀ frameType channelNumber payloadSize,
      frameHead data = some (frameType, channelNumber, payloadSize) →
        payloadSize + 8 ≤ data.length →
          slice data (payloadSize + 7) (payloadSize + 8) = [0xCE] → frameType ∈ knownTypes := by
  constructor
  · intro faithful frameType channelNumber payloadSize head whole marker
    by_contra unknown
    have none := (readFrame_none_iff head whole).mpr ⟨marker, unknown⟩
    exact faithful.waits.mp none ⟨_, _, _, _, head, rfl, whole⟩
  · intro known
    have read : ∀ n, HoldsFrame data n → readFrame data ≠ .ok none := by
      rintro n ⟨frameType, channelNumber, payloadSize, head, rfl, whole⟩ none
      obtain ⟨marker, unknown⟩ := (readFrame_none_iff head whole).mp none
      exact unknown (known frameType channelNumber payloadSize head whole marker)
    refine ⟨⟨fun none ⟨n, holds⟩ => read n holds none, readFrame_waits⟩, ?_, ?_⟩
    · rintro n ⟨frameType, channelNumber, payloadSize, head, rfl, whole⟩
      have some' := read _ ⟨_, _, _, head, rfl, whole⟩
      rw [readFrame_holds head whole] at some' ⊢
      split at some'
      · next marker =>
          rw [if_pos marker]
          cases decoded : decodePayload frameType channelNumber (payloadSize + 8)
              (slice data 7 (payloadSize + 7)) with
          | error e => exact .inr ⟨e, rfl⟩
          | ok result =>
              cases result with
              | none => exact absurd decoded some'
              | some f => exact .inl ⟨f, rfl, size_of_decodePayload decoded⟩
      · next other =>
          rw [if_neg other]
          exact .inr ⟨_, rfl⟩
    · rintro n ⟨frameType, channelNumber, payloadSize, head, rfl, whole⟩ more none
      exact read _ ⟨_, _, _, head, rfl, whole⟩ ((readFrame_none_append head whole more).mp none)

/-- A whole frame of type 4 is taken for a part of one. -/
theorem frame_of_unknown_type_waits : ¬ ReadsFaithfully [4, 0, 1, 0, 0, 0, 0, 0xCE] := by
  intro faithful
  have head : frameHead [4, 0, 1, 0, 0, 0, 0, 0xCE] = some (4, 1, 0) := by decide
  have marker : slice [4, 0, 1, 0, 0, 0, 0, 0xCE] 7 8 = [0xCE] := by decide
  have none := (readFrame_none_iff head (by decide)).mpr ⟨marker, by decide⟩
  exact faithful.waits.mp none ⟨8, 4, 1, 0, head, rfl, by decide⟩

end MockAmqp
