import MockAmqp.Properties
import MockAmqp.Splits

/-!
# What the caller of an endpoint supplies

The values that `json.loads` returns, and the headers of a request that `_build_message` keeps for
the message, with those of them that a content header delivers.
-/

namespace MockAmqp
open Exec

/-! ## What json.loads returns -/

theorem mem_assocSet {κ ν : Type} [DecidableEq κ] {l : List (κ × ν)} {k : κ} {v : ν} {p : κ × ν}
    (member : p ∈ assocSet l k v) : p.2 = v ∨ p ∈ l := by
  induction l with
  | nil => exact .inl (congrArg Prod.snd (List.mem_singleton.mp member))
  | cons q rest ih =>
      obtain ⟨k', v'⟩ := q
      rw [assocSet] at member
      split at member
      · rcases List.mem_cons.mp member with rfl | old
        · exact .inl rfl
        · exact .inr (List.mem_cons_of_mem _ old)
      · rcases List.mem_cons.mp member with rfl | later
        · exact .inr List.mem_cons_self
        · exact (ih later).imp_right (List.mem_cons_of_mem _)

/-- A dictionary of JSON values stays one under another store. -/
theorem Val.Loaded.store {entries : List (Str × Val)} (loaded : (Val.dict entries).Loaded) (k : Str)
    {v : Val} (value : v.Loaded) : (Val.dict (assocSet entries k v)).Loaded := by
  cases loaded with
  | dict all distinct =>
      refine .dict (fun p member => ?_) (nodup_keys_assocSet distinct k v)
      rcases mem_assocSet member with same | old
      · rw [same]
        exact value
      · exact all p old

namespace Json

theorem scanUnsigned_loaded {negative : Bool} {s : Str} {x : Val × Str}
    (read : scanUnsigned negative s = some x) : x.1.Loaded := by
  unfold scanUnsigned at read
  dsimp only at read
  split_ifs at read
  all_goals cases read
  · exact .int _
  · exact .int _
  · exact .float _
  · exact .float _

theorem scanWord_loaded {s : Str} {x : Val × Str} (read : scanWord s = some x) : x.1.Loaded := by
  unfold scanWord at read
  split at read
  · cases read
    exact .none
  · cases read
    exact .bool true
  · cases read
    exact .bool false
  · cases read
    exact .float _
  · cases read
    exact .float _
  · cases read
    exact .float _
  · cases read

section
variable {fuel : Nat}

theorem scanMembers_loaded (value : ∀ s x, scanValue fuel s = some x → x.1.Loaded)
    (members : ∀ s entries x, scanMembers fuel s entries = some x → (Val.dict entries).Loaded →
      x.1.Loaded) {s : Str} {entries : List (Str × Val)} {x : Val × Str}
    (read : scanMembers (fuel + 1) s entries = some x) (loaded : (Val.dict entries).Loaded) :
    x.1.Loaded := by
  cases s with
  | nil => simp [scanMembers] at read
  | cons c after =>
      simp only [scanMembers] at read
      split at read
      · cases read
      · simp only [Option.bind_eq_bind, Option.bind_eq_some_iff] at read
        obtain ⟨⟨name, afterName⟩, _, read⟩ := read
        dsimp only at read
        split at read
        · cases read
        · split at read
          · cases read
          · simp only [Option.bind_eq_some_iff] at read
            obtain ⟨⟨v, afterValue⟩, found, read⟩ := read
            have stored := loaded.store name (value _ _ found)
            dsimp only at read
            split at read
            · cases read
            · split at read
              · cases read
                exact stored
              · split at read
                · exact members _ _ _ read stored
                · cases read

theorem scanElements_loaded (value : ∀ s x, scanValue fuel s = some x → x.1.Loaded)
    (elements : ∀ s items x, scanElements fuel s items = some x → (Val.list items).Loaded →
      x.1.Loaded) {s : Str} {items : List Val} {x : Val × Str}
    (read : scanElements (fuel + 1) s items = some x) (loaded : (Val.list items).Loaded) :
    x.1.Loaded := by
  cases s with
  | nil => simp [scanElements] at read
  | cons c after =>
      simp only [scanElements, Option.bind_eq_bind, Option.bind_eq_some_iff] at read
      obtain ⟨⟨v, afterValue⟩, found, read⟩ := read
      have grown : (Val.list (items ++ [v])).Loaded := by
        cases loaded with
        | list all =>
            refine .list fun w member => ?_
            rcases List.mem_append.mp member with old | new
            · exact all w old
            · rw [List.mem_singleton.mp new]
              exact value _ _ found
      dsimp only at read
      split at read
      · cases read
      · split at read
        · cases read
          exact grown
        · split at read
          · exact elements _ _ _ read grown
          · cases read

theorem scanValue_loaded
    (members : ∀ s entries x, scanMembers fuel s entries = some x → (Val.dict entries).Loaded →
      x.1.Loaded)
    (elements : ∀ s items x, scanElements fuel s items = some x → (Val.list items).Loaded →
      x.1.Loaded) {s : Str} {x : Val × Str} (read : scanValue (fuel + 1) s = some x) :
    x.1.Loaded := by
  have empty : (Val.dict []).Loaded := .dict (by simp) (by simp)
  have nothing : (Val.list []).Loaded := .list (by simp)
  cases s with
  | nil => simp [scanValue] at read
  | cons c after =>
      simp only [scanValue] at read
      split at read
      · simp only [Option.bind_eq_bind, Option.bind_eq_some_iff] at read
        obtain ⟨⟨chars, behind⟩, _, made⟩ := read
        cases made
        exact .str chars
      · split at read
        · split at read
          · cases read
          · split at read
            · cases read
              exact empty
            · exact members _ _ _ read empty
        · split at read
          · split at read
            · cases read
            · split at read
              · cases read
                exact nothing
              · exact elements _ _ _ read nothing
          · split at read
            · next found word =>
                cases read
                exact scanWord_loaded word
            · split at read
              · exact scanUnsigned_loaded read
              · exact scanUnsigned_loaded read

end

theorem scan_loaded (fuel : Nat) : (∀ s x, scanValue fuel s = some x → x.1.Loaded) ∧
    (∀ s entries x, scanMembers fuel s entries = some x → (Val.dict entries).Loaded → x.1.Loaded) ∧
    ∀ s items x, scanElements fuel s items = some x → (Val.list items).Loaded → x.1.Loaded := by
  induction fuel with
  | zero =>
      refine ⟨fun s x read => ?_, fun s entries x read => ?_, fun s items x read => ?_⟩
      · simp [scanValue] at read
      · simp [scanMembers] at read
      · simp [scanElements] at read
  | succ fuel ih =>
      obtain ⟨value, members, elements⟩ := ih
      exact ⟨fun _ _ read => scanValue_loaded members elements read,
        fun _ _ _ read => scanMembers_loaded value members read,
        fun _ _ _ read => scanElements_loaded value elements read⟩

end Json

theorem jsonLoads_loaded {s : Str} {v : Val} (read : jsonLoads s = .ok v) : v.Loaded := by
  unfold jsonLoads at read
  split at read
  · cases read
  · split at read
    · cases read
    · split at read
      · next found =>
          split at read
          · cases read
            exact (Json.scan_loaded _).1 _ _ found
          · cases read
      · cases read

/-! ## Headers of the request -/

theorem lookup_stored {κ ν : Type} [DecidableEq κ] [BEq κ] [LawfulBEq κ] (l : List (κ × ν)) (k a : κ)
    (v : ν) : (assocSet l k v).lookup a = if a = k then some v else l.lookup a := by
  induction l with
  | nil =>
      by_cases h : a = k
      · simp [assocSet, h]
      · simp [assocSet, List.lookup_cons, h, beq_false_of_ne h]
  | cons p rest ih =>
      obtain ⟨k', v'⟩ := p
      by_cases hk : k' = k
      · subst hk
        rw [assocSet, if_pos rfl, List.lookup_cons, List.lookup_cons]
        by_cases h : a = k'
        · simp [h]
        · simp [h, beq_false_of_ne h]
      · rw [assocSet, if_neg hk, List.lookup_cons, List.lookup_cons, ih]
        by_cases h : a = k'
        · simp [h, hk]
        · simp [beq_false_of_ne h]

namespace Http

def headerPrefix : Bytes := ascii "amqp_header_"

/-- The name under which a header of the request is kept. -/
def keptName (type : Bytes) : Except PyError Str :=
  decodeUtf8 false (removeAll headerPrefix type.length type)

/-- The header is kept under this name with this value. -/
def KeptAs (header : Bytes × Bytes) (name : Str) (value : Val) : Prop :=
  startsWith header.1 "amqp_header_" = true ∧ keptName header.1 = .ok name ∧
    ∃ text, decodeUtf8 false header.2 = .ok text ∧ value = .str text

section
variable {headers : Headers} {has found : Bool} {kept last : List (Str × Val)}

theorem keepHeaders_cons {type value : Bytes} (keeps : keepHeaders ((type, value) :: headers) has kept =
    .ok (found, last)) :
    (∃ name text, KeptAs (type, value) name (.str text) ∧
        keepHeaders headers has (assocSet kept name (.str text)) = .ok (found, last)) ∨
      startsWith type "amqp_header_" = false ∧
        ∃ has, keepHeaders headers has kept = .ok (found, last) := by
  unfold keepHeaders at keeps
  split at keeps
  · next binary =>
      refine .inr ⟨?_, true, keeps⟩
      rw [binary.1]
      decide
  · split at keeps
    · next amqp =>
        obtain ⟨text, decoded, keeps⟩ := except_bind_eq_ok.mp keeps
        obtain ⟨name, named, keeps⟩ := except_bind_eq_ok.mp keeps
        exact .inl ⟨name, text, ⟨amqp, named, text, decoded, rfl⟩, keeps⟩
    · next other => exact .inr ⟨Bool.eq_false_of_not_eq_true other, has, keeps⟩

theorem keepHeaders_loaded (keeps : keepHeaders headers has kept = .ok (found, last))
    (loaded : (Val.dict kept).Loaded) : (Val.dict last).Loaded := by
  induction headers generalizing has kept with
  | nil =>
      cases keeps
      exact loaded
  | cons p headers ih =>
      rcases keepHeaders_cons keeps with ⟨name, text, _, keeps⟩ | ⟨_, _, keeps⟩
      · exact ih keeps (loaded.store name (.str text))
      · exact ih keeps loaded

/-- What is kept comes from one of the headers. -/
theorem kept_provenance (keeps : keepHeaders headers has kept = .ok (found, last)) {name : Str} {w : Val}
    (stored : last.lookup name = some w) :
    kept.lookup name = some w ∨ ∃ header ∈ headers, KeptAs header name w := by
  induction headers generalizing has kept with
  | nil =>
      cases keeps
      exact .inl stored
  | cons p headers ih =>
      rcases keepHeaders_cons keeps with ⟨name', text, here, keeps⟩ | ⟨_, _, keeps⟩
      · rcases ih keeps with old | ⟨header, mem, keptAs⟩
        · rw [lookup_stored] at old
          split at old
          · next same =>
              subst same
              cases old
              exact .inr ⟨p, List.mem_cons_self, here⟩
          · exact .inl old
        · exact .inr ⟨header, List.mem_cons_of_mem p mem, keptAs⟩
      · rcases ih keeps with old | ⟨header, mem, keptAs⟩
        · exact .inl old
        · exact .inr ⟨header, List.mem_cons_of_mem p mem, keptAs⟩

/-- A name that is kept stays. -/
theorem kept_stays (keeps : keepHeaders headers has kept = .ok (found, last)) {name : Str}
    (there : (kept.lookup name).isSome = true) : (last.lookup name).isSome = true := by
  induction headers generalizing has kept with
  | nil =>
      cases keeps
      exact there
  | cons p headers ih =>
      rcases keepHeaders_cons keeps with ⟨name', text, _, keeps⟩ | ⟨_, _, keeps⟩
      · refine ih keeps ?_
        rw [lookup_stored]
        split
        · rfl
        · exact there
      · exact ih keeps there

/-- Every header of the message is kept under some name. -/
theorem header_kept (keeps : keepHeaders headers has kept = .ok (found, last)) {header : Bytes × Bytes}
    (mem : header ∈ headers) (amqp : startsWith header.1 "amqp_header_" = true) :
    ∃ name text, KeptAs header name (.str text) ∧ (last.lookup name).isSome = true := by
  induction headers generalizing has kept with
  | nil => cases mem
  | cons p headers ih =>
      rcases keepHeaders_cons keeps with ⟨name, text, here, rest⟩ | ⟨other, _, rest⟩
      · rcases List.mem_cons.mp mem with rfl | later
        · refine ⟨name, text, here, kept_stays rest ?_⟩
          rw [lookup_stored, if_pos rfl]
          rfl
        · exact ih rest later
      · rcases List.mem_cons.mp mem with rfl | later
        · cases other.symm.trans amqp
        · exact ih rest later

theorem startsWith_headerPrefix (name : Bytes) :
    startsWith (headerPrefix ++ name) "amqp_header_" = true :=
  List.isPrefixOf_iff_prefix.mpr (List.prefix_append headerPrefix name)

/-- The name of a property does not have the prefix in it. -/
theorem keptName_property {property : Str} {format : Char} {bit : Nat}
    (listed : (property, format, bit) ∈ PROPERTIES) :
    keptName (headerPrefix ++ encodePass property) = .ok property := by
  have all : (PROPERTIES.all fun p =>
      decide (keptName (headerPrefix ++ encodePass p.1) = .ok p.1)) = true := by
    decide +kernel
  exact of_decide_eq_true (List.all_eq_true.mp all _ listed)

theorem property_decoded {property : Str} {format : Char} {bit : Nat}
    (listed : (property, format, bit) ∈ PROPERTIES) :
    decodeUtf8 false (encodePass property) = .ok property := by
  have all : (PROPERTIES.all fun p =>
      decide (decodeUtf8 false (encodePass p.1) = .ok p.1)) = true := by
    decide +kernel
  exact of_decide_eq_true (List.all_eq_true.mp all _ listed)

/-- The headers of the request that are meant for the message are delivered under their names. -/
def DeliversHeaders (headers : Headers) (h : Header) : Prop :=
  ∀ name value, (headerPrefix ++ name, value) ∈ headers → ∃ n text, decodeUtf8 false name = .ok n ∧
    decodeUtf8 false value = .ok text ∧ h.Delivers n (.str text)

/-- Each of these headers has the name of a property for short strings, and none has two values. -/
structure FitsProperties (headers : Headers) : Prop where
  named : ∀ name value, (headerPrefix ++ name, value) ∈ headers →
    ∃ property bit, (property, 's', bit) ∈ PROPERTIES ∧ name = encodePass property
  once : ∀ name value value', (headerPrefix ++ name, value) ∈ headers →
    (headerPrefix ++ name, value') ∈ headers → value = value'

/-- A text is delivered under a name exactly if the name is a property for short strings and this
text was kept under it. -/
theorem delivers_text_iff (texts : ∀ name w, kept.lookup name = some w → ∃ text, w = .str text)
    (accepted : Accepted kept) {h : Header}
    (read : ∀ name, h.properties.get? name = (writtenEntries kept).lookup name) {name text : Str} :
    h.Delivers name (.str text) ↔
      (∃ bit, (name, 's', bit) ∈ PROPERTIES) ∧ kept.lookup name = some (.str text) := by
  rw [delivers_iff_reaches (.str text) read]
  constructor
  · rintro (⟨format, bit, v, listed, found, same⟩ | ⟨table, found, _⟩)
    · obtain ⟨text', rfl⟩ := texts name v found
      have inRange := accepted.inRange listed found
      rw [← same] at inRange
      have short : format = 's' := by
        rcases property_formats _ listed with rfl | rfl | rfl | rfl
        · rfl
        all_goals cases inRange
      subst short
      have kept' : asWritten 's' (.str text') = .str text' :=
        (asWritten_eq_iff (.inl rfl) (accepted.inRange listed found)).mpr rfl
      exact ⟨⟨bit, listed⟩, by rw [found, same, kept']⟩
    · obtain ⟨_, no⟩ := texts _ _ found
      cases no
  · rintro ⟨⟨bit, listed⟩, found⟩
    have kept' : asWritten 's' (.str text) = .str text :=
      (asWritten_eq_iff (.inl rfl) (accepted.inRange listed found)).mpr rfl
    exact .inl ⟨'s', bit, _, listed, found, kept'.symm⟩

theorem deliversHeaders_iff (keeps : keepHeaders headers false [] = .ok (found, kept))
    (accepted : Accepted kept) {h : Header}
    (read : ∀ name, h.properties.get? name = (writtenEntries kept).lookup name) :
    DeliversHeaders headers h ↔ FitsProperties headers := by
  have provenance : ∀ name w, kept.lookup name = some w →
      ∃ header ∈ headers, KeptAs header name w := by
    intro name w stored
    rcases kept_provenance keeps stored with no | come
    · cases no
    · exact come
  have texts : ∀ name w, kept.lookup name = some w → ∃ text, w = .str text := by
    intro name w stored
    obtain ⟨_, _, _, _, text, _, same⟩ := provenance name w stored
    exact ⟨text, same⟩
  constructor
  · intro delivers
    constructor
    · intro name value mem
      obtain ⟨n, text, named, _, delivered⟩ := delivers name value mem
      obtain ⟨⟨bit, listed⟩, _⟩ := (delivers_text_iff texts accepted read).mp delivered
      exact ⟨n, bit, listed, (encodePass_of_decoded named).symm⟩
    · intro name value value' mem mem'
      obtain ⟨n, text, named, decoded, delivered⟩ := delivers name value mem
      obtain ⟨n', text', named', decoded', delivered'⟩ := delivers name value' mem'
      cases named.symm.trans named'
      obtain ⟨_, stored⟩ := (delivers_text_iff texts accepted read).mp delivered
      obtain ⟨_, stored'⟩ := (delivers_text_iff texts accepted read).mp delivered'
      cases stored.symm.trans stored'
      rw [← encodePass_of_decoded decoded, encodePass_of_decoded decoded']
  · intro fits name value mem
    obtain ⟨property, bit, listed, rfl⟩ := fits.named name value mem
    obtain ⟨n, text, keptAs, there⟩ := header_kept keeps mem (startsWith_headerPrefix _)
    obtain ⟨_, named, text', decoded, same⟩ := keptAs
    cases same
    cases (keptName_property listed).symm.trans named
    obtain ⟨w, stored⟩ := Option.isSome_iff_exists.mp there
    obtain ⟨⟨type', value'⟩, mem', amqp, named', text', decoded', rfl⟩ := provenance property w stored
    obtain ⟨name', rfl⟩ := List.isPrefixOf_iff_prefix.mp amqp
    obtain ⟨property', bit', listed', rfl⟩ := fits.named name' value' mem'
    cases (keptName_property listed').symm.trans named'
    cases fits.once _ _ _ mem mem'
    cases decoded.symm.trans decoded'
    exact ⟨property, text, property_decoded listed, decoded,
      (delivers_text_iff texts accepted read).mpr ⟨⟨bit, listed⟩, stored⟩⟩

end

end Http

end MockAmqp
