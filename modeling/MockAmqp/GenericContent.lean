import MockAmqp.ContentHeader

/-!
# Content outside the frame reader

`decode_properties_basic` and `GenericContent`: a second decoder of content headers, an encoder of
their properties and a second assembly of bodies.
-/

namespace MockAmqp
open Exec

/-! ## `decode_properties_basic` -/

section
variable (buf : Bytes) (offset : Nat)

def readShortstr : Except PyError (Val × Nat) := do
  let slen ← unpackFrom 1 buf offset
  let val ← bytesToStr (slice buf (offset + 1) (offset + 1 + slen))
  return (.str val, offset + 1 + slen)

def readOctet : Except PyError (Val × Nat) := do
  return (.int (← unpackFrom 1 buf offset), offset + 1)

def readLonglong : Except PyError (Val × Nat) := do
  return (.int (← unpackFrom 8 buf offset), offset + 8)

/-- `_f, offset = loads('F', buf, offset)`, with the only element of `_f`. -/
def readHeaders : Except PyError (Val × Nat) := do
  match ← loads ['F'] buf offset with
  | ([val], offset) => return (val, offset)
  | _ => .error .valueError

end

/-- A test of the flags, with the key and the reader of the branch under it. -/
structure PropertyBranch where
  mask : Nat
  name : Str
  read : Bytes → Nat → Except PyError (Val × Nat)

def PropertyBranch.decode (p : PropertyBranch) (buf : Bytes) (flags : Nat)
    (found : OrderedDict Str Val × Nat) : Except PyError (OrderedDict Str Val × Nat) :=
  if flags &&& p.mask ≠ 0 then do
    let (val, offset) ← p.read buf found.2
    return (found.1.insert p.name val, offset)
  else .ok found

def basicBranches : List PropertyBranch :=
  [⟨0x8000, str "content_type", readShortstr⟩,
    ⟨0x4000, str "content_encoding", readShortstr⟩,
    ⟨0x2000, str "application_headers", readHeaders⟩,
    ⟨0x1000, str "delivery_mode", readOctet⟩,
    ⟨0x0800, str "priority", readOctet⟩,
    ⟨0x0400, str "correlation_id", readShortstr⟩,
    ⟨0x0200, str "reply_to", readShortstr⟩,
    ⟨0x0100, str "expiration", readShortstr⟩,
    ⟨0x0080, str "message_id", readShortstr⟩,
    ⟨0x0040, str "timestamp", readLonglong⟩,
    ⟨0x0020, str "type", readShortstr⟩,
    ⟨0x0010, str "user_id", readShortstr⟩,
    ⟨0x0008, str "app_id", readShortstr⟩,
    ⟨0x0004, str "cluster_id", readShortstr⟩]

def decodePropertiesBasic (buf : Bytes) (offset : Nat) :
    Except PyError (OrderedDict Str Val × Nat) := do
  let flags ← unpackFrom 2 buf offset
  basicBranches.foldlM (fun found p => p.decode buf flags found) (.empty, offset + 2)

/-- The branch reads a value as `loads` does under the letter of a table entry. -/
structure PropertyBranch.Matches (p : PropertyBranch) (entry : Str × Char × Nat) : Prop where
  name : p.name = entry.1
  mask : p.mask = entry.2.2
  read : ∀ buf offset, loadOne buf ⟨0, 0, offset⟩ entry.2.1 = (do
    let (val, offset) ← p.read buf offset
    return (val, ⟨0, 0, offset⟩))

section
variable (mask : Nat) (name : Str)

theorem matches_shortstr : PropertyBranch.Matches ⟨mask, name, readShortstr⟩ (name, 's', mask) :=
  ⟨rfl, rfl, fun buf offset => by simp only [loadOne, readShortstr, bind_assoc, pure_bind]⟩

theorem matches_octet : PropertyBranch.Matches ⟨mask, name, readOctet⟩ (name, 'o', mask) :=
  ⟨rfl, rfl, fun buf offset => by simp only [loadOne, readOctet, bind_assoc, pure_bind]⟩

theorem matches_longlong : PropertyBranch.Matches ⟨mask, name, readLonglong⟩ (name, 'L', mask) :=
  ⟨rfl, rfl, fun buf offset => by simp only [loadOne, readLonglong, bind_assoc, pure_bind]⟩

/-- No bits are pending behind a table. -/
theorem loadOne_table {buf : Bytes} {st : LoadState} {r : Val × LoadState}
    (loaded : loadOne buf st 'F' = .ok r) : ∃ val offset, r = (val, ⟨0, 0, offset⟩) := by
  obtain ⟨tlen, _, read⟩ := except_bind_eq_ok.mp loaded
  obtain ⟨⟨val, offset⟩, _, same⟩ := except_bind_eq_ok.mp read
  exact ⟨.dict val, offset, (Except.ok.inj same).symm⟩

theorem matches_headers : PropertyBranch.Matches ⟨mask, name, readHeaders⟩ (name, 'F', mask) := by
  refine ⟨rfl, rfl, fun buf offset => ?_⟩
  simp only [readHeaders, loads, loadAll, bind_assoc, pure_bind]
  cases loaded : loadOne buf ⟨0, 0, offset⟩ 'F' with
  | error e => rfl
  | ok r =>
      obtain ⟨val, offset, rfl⟩ := loadOne_table loaded
      rfl

end

/-- The branches stand in the order of the table of `Header`. -/
theorem branches_match : List.Forall₂ PropertyBranch.Matches basicBranches Header.PROPERTIES := by
  unfold basicBranches Header.PROPERTIES
  refine .cons (matches_shortstr _ _) (.cons (matches_shortstr _ _) (.cons (matches_headers _ _)
    (.cons (matches_octet _ _) (.cons (matches_octet _ _) ?_))))
  refine .cons (matches_shortstr _ _) (.cons (matches_shortstr _ _) (.cons (matches_shortstr _ _)
    (.cons (matches_shortstr _ _) (.cons (matches_longlong _ _) ?_))))
  exact .cons (matches_shortstr _ _) (.cons (matches_shortstr _ _) (.cons (matches_shortstr _ _)
    (.cons (matches_shortstr _ _) .nil)))

/-- Branch by branch, what `loads` reads under the letters of the flagged entries. -/
theorem branches_read {branches : List PropertyBranch} {table : List (Str × Char × Nat)}
    (same : List.Forall₂ PropertyBranch.Matches branches table) (buf : Bytes) (flags : Nat)
    (found : OrderedDict Str Val) (offset : Nat) :
    branches.foldlM (fun found p => p.decode buf flags found) (found, offset) = (do
      let present := table.filter fun p => flags &&& p.2.2 ≠ 0
      let (values, stop) ← loadAll buf (present.map (·.2.1)) ⟨0, 0, offset⟩
      return (((present.map (·.1)).zip values).foldl (fun d p => d.insert p.1 p.2) found, stop)) := by
  induction same generalizing found offset with
  | nil => rfl
  | @cons p entry branches table first rest ih =>
      obtain ⟨name, letter, mask⟩ := entry
      rw [List.foldlM_cons, PropertyBranch.decode, first.mask, first.name]
      by_cases flagged : flags &&& mask ≠ 0
      · rw [if_pos flagged, List.filter_cons_of_pos (by simpa using flagged)]
        have one : loadOne buf ⟨0, 0, offset⟩ letter = (do
            let (val, offset) ← p.read buf offset
            return (val, ⟨0, 0, offset⟩)) := first.read buf offset
        simp only [List.map_cons, loadAll]
        rw [one]
        cases p.read buf offset with
        | error e => rfl
        | ok r =>
            obtain ⟨val, offset⟩ := r
            refine (ih (found.insert name val) offset).trans ?_
            simp only [bind_assoc, pure_bind, List.zip_cons_cons, List.foldl_cons]
            rfl
      · rw [if_neg flagged, List.filter_cons_of_neg (by simpa using flagged)]
        exact ih found offset

/-- The two decoders of basic properties agree, in what they raise too. -/
theorem decodePropertiesBasic_eq (buf : Bytes) (offset : Nat) :
    decodePropertiesBasic buf offset = (do
      let flags ← unpackFrom 2 buf offset
      let present := Header.PROPERTIES.filter fun p => flags &&& p.2.2 ≠ 0
      let (values, stop) ← loads (present.map (·.2.1)) buf (offset + 2)
      return (.ofList ((present.map (·.1)).zip values), stop)) := by
  unfold decodePropertiesBasic
  cases unpackFrom 2 buf offset with
  | error e => rfl
  | ok flags => exact branches_read branches_match buf flags .empty (offset + 2)

/-- A header is made of what `decode_properties_basic` finds behind its fixed fields, or raises what
it raises. -/
theorem header_decoded (n size classId bodySize : Nat) (payload : Bytes) :
    (do
      let flags ← unpackFrom 2 payload 12
      Header.make n size classId bodySize flags payload) = (do
      let (properties, _) ← decodePropertiesBasic payload 12
      return { channelNumber := n, size, classId, bodySize, properties }) := by
  rw [decodePropertiesBasic_eq]
  cases unpackFrom 2 payload 12 with
  | error e => rfl
  | ok flags =>
      show Header.make n size classId bodySize flags payload = _
      unfold Header.make
      simp only [bind_assoc, pure_bind]
      rfl

/-! ## `GenericContent` -/

/-- The attributes that the methods use; `body` is set when the content is ready. -/
structure GenericContent where
  properties : OrderedDict Str Val
  pendingChunks : List Bytes
  bodyReceived : Nat
  bodySize : Nat
  ready : Bool
  body : Option Bytes

abbrev OnContent := EStateM PyError GenericContent

namespace GenericContent

/-- `GenericContent.__init__` -/
def make (props : OrderedDict Str Val) : GenericContent where
  properties := props
  pendingChunks := []
  bodyReceived := 0
  bodySize := 0
  ready := false
  body := none

def PROPERTY_CLASSES : List (Nat × (Bytes → Nat → Except PyError (OrderedDict Str Val × Nat))) :=
  [(60, decodePropertiesBasic)]

def loadProperties (classId : Nat) (buf : Bytes) (offset : Nat) : OnContent Nat := do
  match PROPERTY_CLASSES.lookup classId with
  | none => raise .keyError
  | some decode =>
      let (props, offset) ← attempt (decode buf offset)
      update fun c => { c with properties := props }
      return offset

/-- `unpack_from('>HxxQ', buf, offset)` -/
def unpackHeader (buf : Bytes) (offset : Nat) : Except PyError (Nat × Nat) := do
  return (← unpackFrom 2 buf offset, ← unpackFrom 8 buf (offset + 4))

/-- The offset it returns is the one of the properties, not the one behind them. -/
def inboundHeader (buf : Bytes) (offset : Nat) : OnContent Nat := do
  let (classId, bodySize) ← attempt (unpackHeader buf offset)
  update fun c => { c with bodySize }
  let offset := offset + 12
  let _ ← loadProperties classId buf offset
  if (← read fun c : GenericContent => c.bodySize) = 0 then
    update fun c => { c with ready := true }
  return offset

def inboundBody (buf : Bytes) (c : GenericContent) : GenericContent :=
  let c := { c with bodyReceived := c.bodyReceived + buf.length }
  if c.bodyReceived ≥ c.bodySize then
    if c.pendingChunks ≠ [] then
      { c with body := some (c.pendingChunks ++ [buf]).flatten, pendingChunks := [], ready := true }
    else { c with body := some buf, ready := true }
  else { c with pendingChunks := c.pendingChunks ++ [buf] }

/-- What the loop of `_serialize_properties` carries. -/
structure Flagging where
  shift : Int
  flagBits : Nat
  flags : List Nat
  sformat : List Char
  svalues : List Val

/-- One turn of the loop, for a property that may be missing. -/
def Flagging.next (st : Flagging) (proptype : String) : Option Val → Except PyError Flagging
  | none | some .none => .ok { st with shift := st.shift - 1 }
  | some val =>
      let st := if st.shift = 0 then
          { st with flags := st.flags ++ [st.flagBits], flagBits := 0, shift := 15 }
        else st
      -- `1 << shift`
      if st.shift < 0 then .error .valueError
      else
        let st := { st with flagBits := st.flagBits ||| 2 ^ st.shift.toNat, shift := st.shift - 1 }
        if proptype ≠ "bit" then
          .ok { st with sformat := st.sformat ++ proptype.toList, svalues := st.svalues ++ [val] }
        else .ok st

def packWords : List Nat → Except PyError Bytes
  | [] => .ok []
  | flagBits :: rest => do return (← packUnsigned 2 flagBits) ++ (← packWords rest)

/-- `props.setdefault('content_encoding', 'utf-8')` -/
def withEncoding (props : OrderedDict Str Val) : OrderedDict Str Val :=
  if props.contains (str "content_encoding") then props
  else props.insert (str "content_encoding") (.str (str "utf-8"))

/-- `_serialize_properties` of a class with the given `PROPERTIES`; the default stays even if the
rest raises. -/
def serializeProperties (PROPERTIES : List (Str × String)) : OnContent Bytes := do
  update fun c => { c with properties := withEncoding c.properties }
  let props ← read fun c : GenericContent => c.properties
  let st ← attempt (PROPERTIES.foldlM (fun st p => Flagging.next st p.2 (props.get? p.1))
    ⟨15, 0, [], [], []⟩)
  let words ← attempt (packWords (st.flags ++ [st.flagBits]))
  let values ← attempt (dumps st.sformat st.svalues)
  return words ++ values

/-! ### Headers -/

/-- A field of the first `k` bytes. -/
theorem unpackFrom_front (buf : Bytes) {width offset k : Nat} (inside : offset + width ≤ k) :
    unpackFrom width (slice buf 0 k) offset = unpackFrom width buf offset := by
  have front : slice buf 0 k = buf.take k := by rw [slice, List.drop_zero, Nat.sub_zero]
  have field : slice (buf.take k) offset (offset + width) = slice buf offset (offset + width) := by
    rw [slice, slice, List.drop_take, List.take_take]
    congr 1
    omega
  unfold unpackFrom
  rw [front, List.length_take, field]
  by_cases fits : offset + width ≤ buf.length
  · rw [if_pos fits, if_pos (by omega)]
  · rw [if_neg fits, if_neg (by omega)]

section
variable {c : GenericContent} {payload : Bytes}

theorem inboundHeader_basic {bodySize : Nat}
    (fields : unpackHeader payload 0 = .ok (60, bodySize)) (c : GenericContent) :
    (∀ props stop, decodePropertiesBasic payload 12 = .ok (props, stop) →
      inboundHeader payload 0 c =
        .ok 12 { c with properties := props, bodySize, ready := c.ready || bodySize = 0 }) ∧
    ∀ e, decodePropertiesBasic payload 12 = .error e →
      inboundHeader payload 0 c = .error e { c with bodySize } := by
  have start : inboundHeader payload 0 c = (do
      let _ ← loadProperties 60 payload 12
      if (← read fun c : GenericContent => c.bodySize) = 0 then
        update fun c => { c with ready := true }
      return 12 : OnContent Nat) { c with bodySize } := by
    unfold inboundHeader
    rw [fields]
    rfl
  refine ⟨fun props stop decoded => ?_, fun e failed => ?_⟩
  · have loaded : loadProperties 60 payload 12 { c with bodySize } =
        .ok stop { c with bodySize, properties := props } := by
      show (do
        let (props, offset) ← attempt (decodePropertiesBasic payload 12)
        update fun c => { c with properties := props }
        return offset : OnContent Nat) _ = _
      rw [decoded]
      rfl
    rw [start, bind_ok loaded, bind_apply, read_apply]
    by_cases empty : bodySize = 0
    · simp [empty, bind_apply, update_apply, pure_apply]
    · simp [empty, pure_apply]
  · have raised : loadProperties 60 payload 12 { c with bodySize } =
        .error e { c with bodySize } := by
      show (do
        let (props, offset) ← attempt (decodePropertiesBasic payload 12)
        update fun c => { c with properties := props }
        return offset : OnContent Nat) _ = _
      rw [failed]
      rfl
    rw [start, bind_apply, raised]

/-- The content when it has taken over a header. -/
def headed (h : Header) (c : GenericContent) : GenericContent :=
  { c with properties := h.properties, bodySize := h.bodySize, ready := c.ready || h.bodySize = 0 }

/-- The frame reader and `inbound_header` read the same from the payload of a header frame of the
basic class, and raise the same. -/
theorem inboundHeader_agrees (basic : unpackFrom 2 payload 0 = .ok 60) (n size : Nat)
    (c : GenericContent) :
    (∀ h, decodePayload 2 n size payload = .ok (some (.header h)) →
      inboundHeader payload 0 c = .ok 12 (headed h c)) ∧
    ∀ e, decodePayload 2 n size payload = .error e →
      ∃ c', inboundHeader payload 0 c = .error e c' := by
  have decode : decodePayload 2 n size payload = (do
      let bodySize ← unpackFrom 8 payload 4
      let flags ← unpackFrom 2 payload 12
      return some (.header (← Header.make n size 60 bodySize flags payload))) := by
    unfold decodePayload
    rw [if_neg (by decide), if_neg (by decide), if_pos rfl, unpackFrom_front payload (by decide),
      unpackFrom_front payload (by decide), unpackFrom_front payload (by decide), basic]
    rfl
  rw [decode]
  cases body : unpackFrom 8 payload 4 with
  | error e =>
      refine ⟨fun h made => (nomatch made), fun e' raised => ⟨c, ?_⟩⟩
      obtain rfl : e = e' := Except.error.inj raised
      have failed : unpackHeader payload 0 = .error e := by
        unfold unpackHeader
        rw [basic, body]
        rfl
      unfold inboundHeader
      rw [failed]
      rfl
  | ok bodySize =>
      have fields : unpackHeader payload 0 = .ok (60, bodySize) := by
        unfold unpackHeader
        rw [basic, body]
        rfl
      obtain ⟨made, failed⟩ := inboundHeader_basic fields c
      have header := congrArg (fun x => x >>= fun h => Except.ok (some (FrameValue.header h)))
        (header_decoded n size 60 bodySize payload)
      simp only [bind_assoc, pure_bind] at header
      refine header ▸ ?_
      cases decoded : decodePropertiesBasic payload 12 with
      | error e =>
          refine ⟨fun h made => (nomatch made), fun e' raised => ?_⟩
          obtain rfl : e = e' := Except.error.inj raised
          exact ⟨_, failed e decoded⟩
      | ok r =>
          refine ⟨fun h same => ?_, fun e' raised => (nomatch raised)⟩
          obtain ⟨props, stop⟩ := r
          cases same
          exact made props stop decoded

end

/-! ### Bodies -/

/-- The chunks received before the body is as long as announced. -/
structure Gathering (c : GenericContent) (chunks : List Bytes) : Prop where
  pending : c.pendingChunks = chunks
  received : c.bodyReceived = chunks.flatten.length
  waiting : c.ready = false

section
variable {c : GenericContent} {chunks : List Bytes}

theorem Gathering.short (h : Gathering c chunks) (buf : Bytes)
    (below : (chunks ++ [buf]).flatten.length < c.bodySize) :
    Gathering (inboundBody buf c) (chunks ++ [buf]) ∧
      (inboundBody buf c).bodySize = c.bodySize := by
  have more : c.bodyReceived + buf.length = (chunks ++ [buf]).flatten.length := by
    rw [h.received, List.flatten_append, List.length_append, List.flatten_singleton]
  unfold inboundBody
  dsimp only
  rw [if_neg (by omega)]
  exact ⟨⟨by rw [h.pending], more, h.waiting⟩, rfl⟩

/-- The chunk that reaches the announced size makes the content ready. -/
theorem Gathering.last (h : Gathering c chunks) {buf : Bytes}
    (reached : c.bodySize ≤ (chunks ++ [buf]).flatten.length) :
    (inboundBody buf c).ready = true ∧
      (inboundBody buf c).body = some (chunks ++ [buf]).flatten := by
  have more : c.bodyReceived + buf.length = (chunks ++ [buf]).flatten.length := by
    rw [h.received, List.flatten_append, List.length_append, List.flatten_singleton]
  unfold inboundBody
  dsimp only
  rw [if_pos (by omega), h.pending]
  by_cases first : chunks = []
  · rw [if_neg (by simpa using first), first]
    exact ⟨rfl, by simp⟩
  · rw [if_pos first]
    exact ⟨rfl, rfl⟩

theorem Gathering.all (start : Gathering c []) (chunks : List Bytes)
    (below : ∀ front, front <+: chunks → front ≠ [] → front.flatten.length < c.bodySize) :
    Gathering (chunks.foldl (fun c buf => inboundBody buf c) c) chunks ∧
      (chunks.foldl (fun c buf => inboundBody buf c) c).bodySize = c.bodySize := by
  induction chunks using List.reverseRecOn with
  | nil => exact ⟨start, rfl⟩
  | append_singleton chunks buf ih =>
      obtain ⟨gathered, size⟩ := ih fun front within some =>
        below front (within.trans (List.prefix_append _ _)) some
      rw [List.foldl_append, List.foldl_cons, List.foldl_nil, ← size]
      refine gathered.short buf ?_
      rw [size]
      exact below _ List.prefix_rfl (by simp)

end

/-- The message that the server collects from the same chunks. -/
def collected (headers : Header) (chunks : List Bytes) : Message :=
  chunks.foldl Message.addContent (Message.make headers)

theorem collected_content (headers : Header) (chunks : List Bytes) :
    (collected headers chunks).content = chunks.flatten ∧
      (collected headers chunks).headers = headers := by
  induction chunks using List.reverseRecOn with
  | nil => exact ⟨rfl, rfl⟩
  | append_singleton chunks buf ih =>
      unfold collected at ih ⊢
      rw [List.foldl_append, List.foldl_cons, List.foldl_nil]
      refine ⟨?_, ih.2⟩
      rw [Message.addContent, ih.1, List.flatten_append, List.flatten_singleton]

/-- From the same header frame and the same chunks, with no chunk behind a whole body, a content is
ready when the server's message is complete or has become too long, and then, if there was a chunk
at all, holds the same body. -/
theorem content_agrees {payload : Bytes} {n size : Nat} {h : Header}
    (decoded : decodePayload 2 n size payload = .ok (some (.header h)))
    (basic : unpackFrom 2 payload 0 = .ok 60) (props : OrderedDict Str Val) {chunks : List Bytes}
    (below : ∀ front, front <+: chunks → front ≠ chunks → front.flatten.length < h.bodySize) :
    ∃ c, inboundHeader payload 0 (make props) = .ok 12 c ∧ c.properties = h.properties ∧
      let received := chunks.foldl (fun c buf => inboundBody buf c) c
      let message := collected h chunks
      (received.ready = true ↔ message.isComplete = true ∨ h.bodySize < message.content.length) ∧
        (chunks ≠ [] → received.ready = true → received.body = some message.content) := by
  obtain ⟨content, headers⟩ := collected_content h chunks
  refine ⟨_, (inboundHeader_agrees basic n size (make props)).1 h decoded, rfl, ?_⟩
  unfold Message.isComplete
  dsimp only
  rw [content, headers]
  cases chunks using List.reverseRecOn with
  | nil => simp [headed, make]
  | append_singleton front buf =>
      have some : 0 < h.bodySize := below [] List.nil_prefix (by simp)
      have start : Gathering (headed h (make props)) [] :=
        ⟨rfl, rfl, by simp [headed, make]; omega⟩
      obtain ⟨gathered, kept⟩ := start.all front fun part within _ =>
        below part (within.trans (List.prefix_append _ _)) fun same => by
          have longer := within.length_le
          rw [same, List.length_append, List.length_singleton] at longer
          omega
      have size : (front.foldl (fun c buf => inboundBody buf c) (headed h (make props))).bodySize =
          h.bodySize := kept
      rw [List.foldl_append, List.foldl_cons, List.foldl_nil]
      by_cases reached : h.bodySize ≤ (front ++ [buf]).flatten.length
      · obtain ⟨ready, body⟩ := gathered.last (size.symm ▸ reached)
        refine ⟨iff_of_true ready ?_, fun _ _ => body⟩
        rw [decide_eq_true_eq]
        omega
      · obtain ⟨more, _⟩ := gathered.short buf (by omega)
        refine ⟨iff_of_false (by simp [more.waiting]) ?_, fun _ ready => ?_⟩
        · rw [decide_eq_true_eq]
          omega
        · rw [more.waiting] at ready
          cases ready

/-- A header without properties, for a body of five bytes. -/
def fiveBytes : Header := ⟨1, 22, 60, 5, .empty⟩

theorem five_bytes_agree : ∃ c,
    inboundHeader (fixedFields 5 0) 0 (make .empty) = .ok 12 c ∧ c.properties = fiveBytes.properties ∧
      let received := [[1, 2], [3, 4, 5]].foldl (fun c buf => inboundBody buf c) c
      let message := collected fiveBytes [[1, 2], [3, 4, 5]]
      (received.ready = true ↔ message.isComplete = true ∨ 5 < message.content.length) ∧
        ([[1, 2], [3, 4, 5]] ≠ ([] : List Bytes) → received.ready = true →
          received.body = some message.content) := by
  have made : Header.make 1 22 60 5 0 (fixedFields 5 0) = .ok fiveBytes := by
    simp [Header.make, loads, loadAll, fiveBytes, OrderedDict.ofList]
  have fields := fixedFields_read (show 5 < 2 ^ 64 by decide) (show 0 < 2 ^ 16 by decide) []
  rw [List.append_nil] at fields
  obtain ⟨classId, size, flags⟩ := fields
  have decoded : decodePayload 2 1 22 (fixedFields 5 0) = .ok (some (.header fiveBytes)) := by
    unfold decodePayload
    rw [if_neg (by decide), if_neg (by decide), if_pos rfl, classId, size, flags]
    show (do return some (FrameValue.header (← Header.make 1 22 60 5 0 (fixedFields 5 0)))) = _
    rw [made]
    rfl
  have basic : unpackFrom 2 (fixedFields 5 0) 0 = .ok 60 := by decide
  refine content_agrees decoded basic .empty fun front within other => ?_
  have part : front ∈ [[1, 2], [3, 4, 5]].inits := (List.mem_inits _ _).mpr within
  simp at part
  rcases part with rfl | rfl | rfl
  · decide
  · decide
  · exact absurd rfl other

/-! ### Properties -/

/-- The `PROPERTIES` of a class for contents of class 60. -/
def basicTable : List (Str × String) := Header.PROPERTIES.map fun p => (p.1, String.singleton p.2.1)

/-- The masks of a table are the powers of two downwards from `2 ^ shift`, the last at least 2. -/
def Consecutive : Nat → List (Str × Char × Nat) → Prop
  | _, [] => True
  | shift, p :: rest => 0 < shift ∧ p.2.2 = 2 ^ shift ∧ Consecutive (shift - 1) rest

theorem consecutive_PROPERTIES : Consecutive 15 Header.PROPERTIES := by
  simp [Consecutive, Header.PROPERTIES]

theorem letter_not_bit (letter : Char) : String.singleton letter ≠ "bit" := by
  intro same
  have letters := congrArg String.length same
  rw [String.length_singleton] at letters
  cases letters

theorem Flagging.next_given (st : Flagging) (letter : Char) {v : Val} (given : v ≠ .none)
    (positive : 0 < st.shift) : st.next (String.singleton letter) (some v) = .ok
      ⟨st.shift - 1, st.flagBits ||| 2 ^ st.shift.toNat, st.flags, st.sformat ++ [letter],
        st.svalues ++ [v]⟩ := by
  have nonzero : ¬ st.shift = 0 := by omega
  have nonnegative : ¬ st.shift < 0 := by omega
  have letters : (String.singleton letter).toList = [letter] := String.toList_singleton letter
  cases v with
  | none => exact absurd rfl given
  | _ =>
      simp only [Flagging.next, if_neg nonzero, if_neg nonnegative, if_pos (letter_not_bit letter),
        letters]

section
variable {entries : List (Str × Val)}

/-- The loop collects the masks, the letters and the values of the properties that are present. -/
theorem flagging_run (given : ∀ name, entries.lookup name ≠ some .none)
    {table : List (Str × Char × Nat)} {shift : Nat} (masks : Consecutive shift table) (bits : Nat)
    (format : List Char) (values : List Val) :
    (table.map fun p => (p.1, String.singleton p.2.1)).foldlM
        (fun st p => Flagging.next st p.2 (entries.lookup p.1))
        ⟨shift, 2 ^ (shift + 1) * bits, [], format, values⟩ = .ok
      ⟨(shift : Int) - table.length,
        2 ^ (shift + 1) * bits + ((table.filter (isPresent entries)).map (·.2.2)).sum, [],
        format ++ (table.filter (isPresent entries)).map (·.2.1),
        values ++ (table.filter (isPresent entries)).map (valueOf entries)⟩ := by
  induction table generalizing shift bits format values with
  | nil => simp; rfl
  | cons p rest ih =>
      obtain ⟨positive, mask, masks⟩ := masks
      obtain ⟨shift, rfl⟩ : ∃ n, shift = n + 1 := ⟨shift - 1, by omega⟩
      have down : ((shift + 1 : Nat) : Int) - 1 = shift := by omega
      rw [List.map_cons, List.foldlM_cons]
      dsimp only
      cases found : entries.lookup p.1 with
      | none =>
          have absent : isPresent entries p = false := by rw [isPresent, found]; rfl
          have later := ih masks (2 * bits) format values
          rw [Nat.add_sub_cancel] at later
          rw [List.filter_cons_of_neg (by simp [absent])]
          have kept : 2 ^ (shift + 1 + 1) * bits = 2 ^ (shift + 1) * (2 * bits) := by ring
          have turn : Flagging.next ⟨(shift + 1 : Nat), 2 ^ (shift + 1 + 1) * bits, [], format, values⟩
              (String.singleton p.2.1) none =
                .ok ⟨shift, 2 ^ (shift + 1) * (2 * bits), [], format, values⟩ := by
            rw [kept, ← down]
            rfl
          rw [turn, List.length_cons, kept]
          refine later.trans ?_
          congr 2
          omega
      | some v =>
          have present : isPresent entries p = true := by rw [isPresent, found]; rfl
          have value : valueOf entries p = v := by rw [valueOf, found]; rfl
          have later := ih masks (2 * bits + 1) (format ++ [p.2.1]) (values ++ [v])
          rw [Nat.add_sub_cancel] at later
          have joined : 2 ^ (shift + 1 + 1) * bits ||| 2 ^ (shift + 1) =
              2 ^ (shift + 1) * (2 * bits + 1) := by
            rw [← Nat.two_pow_add_eq_or_of_lt (Nat.pow_lt_pow_right (by decide) (by omega))]
            ring
          have turn : Flagging.next ⟨(shift + 1 : Nat), 2 ^ (shift + 1 + 1) * bits, [], format, values⟩
              (String.singleton p.2.1) (some v) = .ok ⟨shift, 2 ^ (shift + 1) * (2 * bits + 1), [],
                format ++ [p.2.1], values ++ [v]⟩ := by
            rw [Flagging.next_given _ _ (fun none => given _ (found.trans (congrArg some none)))
              (by dsimp only; omega), ← joined, ← down]
            rfl
          rw [turn, List.filter_cons_of_pos present, List.length_cons, List.map_cons, List.map_cons,
            List.map_cons, value, List.sum_cons, mask]
          refine later.trans ?_
          congr 2
          · omega
          · ring
          · simp
          · simp

/-- What is read under the letters of the properties that are present is found under their names. -/
theorem found_properties (properties : BasicProperties entries) {read : List Val}
    (same : List.Forall₂ Val.Equal ((presentProperties entries).map (valueOf entries)) read)
    (name : Str) : Option.Rel Val.Equal (entries.lookup name)
      ((OrderedDict.ofList (((presentProperties entries).map (·.1)).zip read)).get? name) := by
  have keys : ∀ values : List Val, values.length = (presentProperties entries).length →
      ((((presentProperties entries).map (·.1)).zip values).map Prod.fst).Nodup := by
    intro values length
    rw [List.map_fst_zip]
    · exact presentNames_distinct
    · rw [length, List.length_map]
  have length : read.length = (presentProperties entries).length := by
    rw [← same.length_eq, List.length_map]
  rw [← properties.get?_present name (keys _ (List.length_map _)), OrderedDict.get?,
    OrderedDict.get?, OrderedDict.entries_ofList (keys read length)]
  exact OrderedDict.lookup_zip same _ name

/-- A flag word with the values behind it is decoded wherever it stands. -/
theorem decoded_placed (properties : BasicProperties entries) : ∃ b,
    dumps ((presentProperties entries).map (·.2.1))
      ((presentProperties entries).map (valueOf entries)) = .ok b ∧
    ∀ buf offset, Placed buf offset (beBytes 2 (flagWord entries) ++ b) →
      ∃ props, decodePropertiesBasic buf offset = .ok (props, offset + (2 + b.length)) ∧
        ∀ name, Option.Rel Val.Equal (entries.lookup name) (props.get? name) := by
  have fits := bitsFit_of_no_bit (present_no_bit entries) 0
  obtain ⟨b, dumped, reads⟩ := dumps_loads properties.inRange fits
  refine ⟨b, dumped, fun buf offset placed => ?_⟩
  have behind := placed.right
  rw [length_beBytes] at behind
  obtain ⟨read, loaded, same⟩ := reads buf (offset + 2) behind
  have flags : unpackFrom 2 buf offset = .ok (flagWord entries) :=
    unpackFrom_beBytes placed.left (by simpa using flagWord_lt entries)
  refine ⟨_, ?_, found_properties properties same⟩
  rw [decodePropertiesBasic_eq, flags, ← Nat.add_assoc]
  refine except_bind_eq_ok.mpr ⟨_, rfl, ?_⟩
  dsimp only
  rw [filter_flagWord]
  exact except_bind_eq_ok.mpr ⟨_, loaded, rfl⟩

/-- The default is a property like the others. -/
theorem basicProperties_withEncoding {props : OrderedDict Str Val}
    (properties : BasicProperties props.entries) :
    BasicProperties (withEncoding props).entries := by
  unfold withEncoding
  split
  · exact properties
  · refine ⟨(props.insert _ _).nodup, ?_⟩
    rintro ⟨name, v⟩ member
    rcases (props.mem_insert _ _ _ _).mp member with ⟨rfl, rfl⟩ | ⟨_, old⟩
    · exact ⟨'s', 2 ^ 14, by decide, .shortstr (by decide)⟩
    · exact properties.known _ old

theorem get?_eq_lookup (props : OrderedDict Str Val) (name : Str) :
    props.get? name = props.entries.lookup name := by
  apply Option.ext
  intro v
  rw [OrderedDict.get?_eq_some_iff, OrderedDict.lookup_eq_some_iff props.nodup]

theorem flagging_basic {props : OrderedDict Str Val} (properties : BasicProperties props.entries) :
    ∃ shift, basicTable.foldlM (fun st p => Flagging.next st p.2 (props.get? p.1))
      ⟨15, 0, [], [], []⟩ = .ok ⟨shift, flagWord props.entries, [],
        (presentProperties props.entries).map (·.2.1),
        (presentProperties props.entries).map (valueOf props.entries)⟩ := by
  have given : ∀ name, props.entries.lookup name ≠ some .none := by
    intro name none
    obtain ⟨format, bit, _, inRange⟩ := properties.known _
      ((OrderedDict.lookup_eq_some_iff properties.distinct _ _).mp none)
    cases inRange
  have run := flagging_run given consecutive_PROPERTIES 0 [] []
  rw [Nat.mul_zero, Nat.zero_add, List.nil_append, List.nil_append] at run
  simp only [get?_eq_lookup]
  rw [← flagWord_eq, presentProperties, ← header_PROPERTIES, basicTable]
  exact ⟨_, run⟩

theorem serializeProperties_eq {c : GenericContent} {b : Bytes}
    (properties : BasicProperties (withEncoding c.properties).entries)
    (dumped : dumps ((presentProperties (withEncoding c.properties).entries).map (·.2.1))
      ((presentProperties (withEncoding c.properties).entries).map
        (valueOf (withEncoding c.properties).entries)) = .ok b) :
    serializeProperties basicTable c =
      .ok (beBytes 2 (flagWord (withEncoding c.properties).entries) ++ b)
        { c with properties := withEncoding c.properties } := by
  generalize same : withEncoding c.properties = props at properties dumped
  obtain ⟨shift, flagged⟩ := flagging_basic properties
  have word : packUnsigned 2 (flagWord props.entries) = .ok (beBytes 2 (flagWord props.entries)) :=
    packUnsigned_ok (by simpa using flagWord_lt props.entries)
  have words : packWords [flagWord props.entries] = .ok (beBytes 2 (flagWord props.entries)) := by
    rw [packWords, word]
    exact congrArg Except.ok (List.append_nil _)
  have looped : attempt (basicTable.foldlM (fun st p => Flagging.next st p.2 (props.get? p.1))
      ⟨15, 0, [], [], []⟩) { c with properties := props } = .ok ⟨shift, flagWord props.entries, [],
        (presentProperties props.entries).map (·.2.1),
        (presentProperties props.entries).map (valueOf props.entries)⟩
          { c with properties := props } := by
    rw [flagged]
    rfl
  have start : serializeProperties basicTable c = (do
      let st ← attempt (basicTable.foldlM (fun st p => Flagging.next st p.2 (props.get? p.1))
        ⟨15, 0, [], [], []⟩)
      let words ← attempt (packWords (st.flags ++ [st.flagBits]))
      let values ← attempt (dumps st.sformat st.svalues)
      return words ++ values : OnContent Bytes) { c with properties := props } := by
    rw [← same]
    rfl
  rw [start, bind_ok looped]
  dsimp only
  rw [List.nil_append, words, attempt_bind_ok, dumped, attempt_bind_ok]
  rfl

end

/-- Properties that are serialized are loaded again, wherever their bytes stand. -/
theorem content_properties_roundTrip {c : GenericContent}
    (properties : BasicProperties c.properties.entries) (before later : Bytes)
    (d : GenericContent) : ∃ bytes props,
      serializeProperties basicTable c =
        .ok bytes { c with properties := withEncoding c.properties } ∧
      loadProperties 60 (before ++ bytes ++ later) before.length d =
        .ok (before.length + bytes.length) { d with properties := props } ∧
      ∀ name, Option.Rel Val.Equal ((withEncoding c.properties).get? name) (props.get? name) := by
  have all := basicProperties_withEncoding properties
  obtain ⟨b, dumped, decodes⟩ := decoded_placed all
  obtain ⟨props, decoded, found⟩ := decodes _ _ (Placed.between before _ later)
  refine ⟨_, props, serializeProperties_eq all dumped, ?_, fun name => ?_⟩
  swap
  · rw [get?_eq_lookup (withEncoding c.properties)]
    exact found name
  rw [List.length_append, length_beBytes]
  show (do
    let (props, offset) ← attempt (decodePropertiesBasic _ _)
    update fun c => { c with properties := props }
    return offset : OnContent Nat) d = _
  rw [decoded]
  rfl

def withPriority : GenericContent := make (.ofList [(str "priority", .int 5)])

theorem priority_roundTrips : ∃ bytes props,
    serializeProperties basicTable withPriority =
      .ok bytes { withPriority with properties := withEncoding withPriority.properties } ∧
    loadProperties 60 ([1] ++ bytes ++ [0xCE]) 1 (make .empty) =
      .ok (1 + bytes.length) { make .empty with properties := props } ∧
    ∀ name, Option.Rel Val.Equal ((withEncoding withPriority.properties).get? name)
      (props.get? name) := by
  have properties : BasicProperties withPriority.properties.entries := by
    refine ⟨withPriority.properties.nodup, fun p member => ?_⟩
    have entries : withPriority.properties.entries = [(str "priority", .int 5)] :=
      OrderedDict.entries_ofList (by decide)
    rw [entries, List.mem_singleton] at member
    subst member
    exact ⟨'o', 2 ^ 11, by decide, .octet (n := 5) (by decide)⟩
  exact content_properties_roundTrip properties [1] [0xCE] (make .empty)

end GenericContent

end MockAmqp
