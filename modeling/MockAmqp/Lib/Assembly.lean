import MockAmqp.Lib.Runs
import Mathlib.Data.List.Basic

/-!
# Contents sent in announced pieces

A sender names a destination, then sends a header with the size of a content, then the
content in pieces. The receiver here asks whether the content is complete whenever a piece
arrives, and only then. It hands over every content that is not empty, and is stuck after an
empty one.
-/

namespace Assembly

variable {δ η β : Type}

inductive Part (δ η β : Type) where
  | start (destination : δ)
  | header (h : η) (size : Nat)
  | piece (content : List β)

structure Item (δ η β : Type) where
  destination : δ
  header : η
  content : List β

inductive Stage (δ η β : Type) where
  | idle
  | announced (destination : δ)
  | collecting (destination : δ) (h : η) (size : Nat) (content : List β)

/-- A part that the stage does not wait for is passed over. -/
def next : Stage δ η β → Part δ η β → Stage δ η β
  | .idle, .start destination => .announced destination
  | .announced destination, .header h size => .collecting destination h size []
  | .collecting destination h size content, .piece more =>
      if size = (content ++ more).length then .idle
      else .collecting destination h size (content ++ more)
  | stage, _ => stage

/-- The item that a part completes. -/
def completed : Stage δ η β → Part δ η β → Option (Item δ η β)
  | .collecting destination h size content, .piece more =>
      if size = (content ++ more).length then
        some { destination, header := h, content := content ++ more }
      else none
  | _, _ => none

def assembled : Stage δ η β → List (Part δ η β) → List (Item δ η β)
  | _, [] => []
  | stage, part :: rest => (completed stage part).toList ++ assembled (next stage part) rest

/-- An item whose content has been cut into pieces, none of them empty. -/
structure Parcel (δ η β : Type) where
  destination : δ
  header : η
  pieces : List (List β)
  nonempty : ∀ piece ∈ pieces, piece ≠ []

namespace Parcel

def content (p : Parcel δ η β) : List β := p.pieces.flatten

def item (p : Parcel δ η β) : Item δ η β :=
  { destination := p.destination, header := p.header, content := p.content }

def parts (p : Parcel δ η β) : List (Part δ η β) :=
  .start p.destination :: .header p.header p.content.length :: p.pieces.map .piece

end Parcel

theorem assembled_append (stage : Stage δ η β) (l r : List (Part δ η β)) :
    assembled stage (l ++ r) = assembled stage l ++ assembled (Runs.run next stage l) r := by
  induction l generalizing stage with
  | nil => rfl
  | cons part rest ih =>
      simp only [List.cons_append, assembled, Runs.run_cons, ih, List.append_assoc]

/-- The last piece, and no earlier one, completes the item. -/
theorem collect {destination : δ} {h : η} {size : Nat} (pieces : List (List β))
    (nonempty : ∀ piece ∈ pieces, piece ≠ []) (content : List β)
    (more : pieces ≠ []) (whole : size = (content ++ pieces.flatten).length) :
    Runs.run next (.collecting destination h size content) (pieces.map .piece) = .idle ∧
      assembled (.collecting destination h size content) (pieces.map .piece) =
        [{ destination, header := h, content := content ++ pieces.flatten }] := by
  induction pieces generalizing content with
  | nil => exact absurd rfl more
  | cons piece rest ih =>
      cases rest with
      | nil =>
          have last : size = (content ++ piece).length := by simpa using whole
          simp [assembled, next, completed, last]
      | cons piece' rest =>
          have later : piece' ≠ [] := nonempty piece' (by simp)
          have positive : 0 < piece'.length := List.length_pos_iff.mpr later
          have early : ¬ size = (content ++ piece).length := by
            simp only [List.flatten_cons, List.length_append] at whole ⊢
            omega
          have rest_collect := ih (fun p hp => nonempty p (List.mem_cons_of_mem _ hp))
            (content ++ piece) (by simp) (by simpa using whole)
          simp only [List.map_cons, Runs.run_cons, assembled, next, completed, if_neg early,
            Option.toList_none, List.nil_append] at rest_collect ⊢
          simpa using rest_collect

theorem Parcel.pieces_ne_nil {p : Parcel δ η β} (h : p.content ≠ []) : p.pieces ≠ [] := by
  intro no
  exact h (by simp [Parcel.content, no])

theorem Parcel.run_parts {p : Parcel δ η β} (h : p.content ≠ []) :
    Runs.run next .idle p.parts = .idle ∧ assembled .idle p.parts = [p.item] :=
  collect p.pieces p.nonempty [] (Parcel.pieces_ne_nil h) rfl

/-- Nothing completes an item without a content. -/
theorem Parcel.run_parts_empty {p : Parcel δ η β} (h : p.content = []) :
    Runs.run next .idle p.parts = .collecting p.destination p.header 0 [] := by
  have none : p.pieces = [] := by
    cases hp : p.pieces with
    | nil => rfl
    | cons piece rest =>
        refine absurd ?_ (p.nonempty piece (by simp [hp]))
        simp only [Parcel.content, hp, List.flatten_cons, List.append_eq_nil_iff] at h
        exact h.1
  simp only [Parcel.parts, Parcel.content, none]
  rfl

/-- The parts of all the parcels, one parcel after the other. -/
def stream (ps : List (Parcel δ η β)) : List (Part δ η β) := ps.flatMap Parcel.parts

theorem run_stream {ps : List (Parcel δ η β)} (h : ∀ p ∈ ps, p.content ≠ []) :
    Runs.run next .idle (stream ps) = .idle ∧
      assembled .idle (stream ps) = ps.map Parcel.item := by
  induction ps with
  | nil => exact ⟨rfl, rfl⟩
  | cons p rest ih =>
      obtain ⟨idle, made⟩ := Parcel.run_parts (h p List.mem_cons_self)
      obtain ⟨idle', made'⟩ := ih fun p hp => h p (List.mem_cons_of_mem _ hp)
      have split : stream (p :: rest) = p.parts ++ stream rest := rfl
      rw [split, Runs.run_append, assembled_append, idle, made, idle', made']
      exact ⟨rfl, rfl⟩

/-- A receiver that is idle after each of the parcels has been sent no empty one. -/
theorem content_ne_nil {ps : List (Parcel δ η β)}
    (idle : ∀ done p todo, ps = done ++ p :: todo →
      Runs.run next .idle (stream (done ++ [p])) = .idle) : ∀ p ∈ ps, p.content ≠ [] := by
  intro p hp empty
  obtain ⟨done, todo, split⟩ := List.append_of_mem hp
  have before : Runs.run next .idle (stream done) = .idle := by
    rcases List.eq_nil_or_concat done with rfl | ⟨earlier, q, rfl⟩
    · rfl
    · rw [List.concat_eq_append] at split ⊢
      exact idle earlier q (p :: todo) (by simpa using split)
  have stuck := idle done p todo split
  have parts : stream (done ++ [p]) = stream done ++ p.parts := by simp [stream]
  rw [parts, Runs.run_append, before, Parcel.run_parts_empty empty] at stuck
  cases stuck

/-- The destination named last, while an item is under way. -/
def Stage.destination : Stage δ η β → Option δ
  | .idle => none
  | .announced destination => some destination
  | .collecting destination _ _ _ => some destination

theorem completed_destination {stage : Stage δ η β} {part : Part δ η β} {item : Item δ η β}
    (h : completed stage part = some item) : stage.destination = some item.destination := by
  cases stage with
  | collecting destination h' size content =>
      cases part with
      | piece more =>
          by_cases whole : size = (content ++ more).length
          · simp only [completed, if_pos whole, Option.some.injEq] at h
            rw [← h]
            rfl
          · rw [completed, if_neg whole] at h
            cases h
      | _ => cases h
  | _ => cases h

theorem next_destination {stage : Stage δ η β} {part : Part δ η β} {destination : δ}
    (h : (next stage part).destination = some destination) :
    stage.destination = some destination ∨ part = .start destination := by
  cases stage with
  | idle =>
      cases part with
      | start d =>
          cases h
          exact .inr rfl
      | _ => cases h
  | announced d =>
      left
      cases part <;> exact h
  | collecting d h' size content =>
      left
      cases part with
      | piece more =>
          by_cases whole : size = (content ++ more).length
          · rw [next, if_pos whole] at h
            cases h
          · rw [next, if_neg whole] at h
            exact h
      | _ => exact h

/-- Items go where a part has sent them. -/
theorem assembled_destination {stage : Stage δ η β} {parts : List (Part δ η β)}
    {item : Item δ η β} (h : item ∈ assembled stage parts) :
    stage.destination = some item.destination ∨ .start item.destination ∈ parts := by
  induction parts generalizing stage with
  | nil => cases h
  | cons part rest ih =>
      rcases List.mem_append.mp h with here | later
      · exact .inl (completed_destination (Option.mem_toList.mp here))
      · rcases ih later with before | named
        · rcases next_destination before with old | rfl
          · exact .inl old
          · exact .inr List.mem_cons_self
        · exact .inr (List.mem_cons_of_mem _ named)

theorem stream_destination {ps : List (Parcel δ η β)} {item : Item δ η β}
    (h : item ∈ assembled .idle (stream ps)) : ∃ p ∈ ps, p.destination = item.destination := by
  rcases assembled_destination h with no | named
  · cases no
  · obtain ⟨p, hp, member⟩ := List.mem_flatMap.mp named
    simp only [Parcel.parts, List.mem_cons, List.mem_map, Part.start.injEq, reduceCtorEq,
      and_false, exists_false, or_false] at member
    exact ⟨p, hp, member.symm⟩

end Assembly
