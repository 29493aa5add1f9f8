import MockAmqp.Answers
import MockAmqp.Formats

/-!
# The two login mechanisms

The credentials in the responses of PLAIN and AMQPLAIN, from the bytes of a start-ok frame.
-/

namespace MockAmqp
open Exec

/-! ## The frames -/

/-- A user name or a password: text that UTF-8 can carry, without NUL. -/
def Credential : Type := { s : Str // ∀ c ∈ s, isSurrogate c.val = false ∧ c ≠ 0 }

/-- Bytes after their number. -/
def counted (width : Nat) (b : Bytes) : Bytes := beBytes width b.length ++ b

/-- A table entry with a long string. -/
def longString (name : String) (value : Str) : Bytes :=
  counted 1 (ascii name) ++ (ascii "S" ++ counted 4 (encodePass value))

/-- NUL, the user name, NUL and the password. -/
def plainResponse (username password : Credential) : Bytes :=
  encodePass (0 :: username.val ++ 0 :: password.val)

/-- The two entries of a table, in either order. -/
def amqplainResponse (loginFirst : Bool) (username password : Credential) : Bytes :=
  if loginFirst then longString "LOGIN" username.val ++ longString "PASSWORD" password.val
  else longString "PASSWORD" password.val ++ longString "LOGIN" username.val

def startOkPayload (peerProperties : Bytes) (mechanism : String) (response : Bytes)
    (locale : Str) : Bytes :=
  beBytes 4 MethodId.startOk.code ++ (peerProperties ++ (counted 1 (encodePass (str mechanism)) ++
    (counted 4 response ++ counted 1 (encodePass locale))))

/-- A start-ok frame whose peer properties can be read. -/
structure StartOk (mechanism : String) (response : Bytes) where
  raw : RawFrame
  peerProperties : Bytes
  peer : Val
  locale : Str
  method : raw.frameType = 1
  payload : raw.payload = startOkPayload peerProperties mechanism response locale
  readable : loads ['F'] raw.payload 4 = .ok ([peer], 4 + peerProperties.length)
  named : (encodePass (str mechanism)).length < 256
  short : (encodePass locale).length < 256

/-- The frame is read, and has these credentials checked. -/
def LeadsTo (raw : RawFrame) (username password : Str) : Prop :=
  ∃ f, (∀ later, readFrame (raw.bytes ++ later) = .ok (some f)) ∧ ∀ env c b,
    checkStartOk env c f b = call env c (.checkCredentials username password) b ∧
      ∃ accepted b', checkStartOk env c f b = .ok accepted b'

/-! ## Reading a start-ok -/

section
variable {buf b : Bytes} {st : LoadState}

theorem counted_read {p : Char} {width : Nat}
    (letter : (p = 's' ∧ width = 1) ∨ (p = 'S' ∧ width = 4))
    (placed : Placed buf st.offset (counted width b)) (short : b.length < 256 ^ width) :
    loadOne buf st p = bytesToStr b >>= fun s =>
      .ok (.str s, ⟨0, 0, st.offset + (counted width b).length⟩) := by
  have text := slice_placed placed.right
  rw [length_beBytes] at text
  rw [counted, List.length_append, length_beBytes, ← Nat.add_assoc]
  rcases letter with ⟨rfl, rfl⟩ | ⟨rfl, rfl⟩
  · show (unpackFrom 1 buf st.offset >>= fun slen =>
      bytesToStr (slice buf (st.offset + 1) (st.offset + 1 + slen)) >>= fun s =>
        Except.ok (Val.str s, (⟨0, 0, st.offset + 1 + slen⟩ : LoadState))) = _
    rw [unpackFrom_beBytes placed.left short]
    show (bytesToStr (slice buf (st.offset + 1) (st.offset + 1 + b.length)) >>= _) = _
    rw [text]
  · show (unpackFrom 4 buf st.offset >>= fun slen =>
      bytesToStr (slice buf (st.offset + 4) (st.offset + 4 + slen)) >>= fun s =>
        Except.ok (Val.str s, (⟨0, 0, st.offset + 4 + slen⟩ : LoadState))) = _
    rw [unpackFrom_beBytes placed.left short]
    show (bytesToStr (slice buf (st.offset + 4) (st.offset + 4 + b.length)) >>= _) = _
    rw [text]

/-- Counted text at the front of what is loaded. -/
theorem counted_loaded {p : Char} {width : Nat} {format : List Char}
    (letter : (p = 's' ∧ width = 1) ∨ (p = 'S' ∧ width = 4))
    (placed : Placed buf st.offset (counted width b)) (short : b.length < 256 ^ width) :
    loadAll buf (p :: format) st = bytesToStr b >>= fun s =>
      loadAll buf format ⟨0, 0, st.offset + (counted width b).length⟩ >>= fun more =>
        .ok (.str s :: more.1, more.2) := by
  rw [loadAll, counted_read letter placed short]
  cases bytesToStr b with
  | error e => rfl
  | ok s => rfl

theorem octet_loaded {x : UInt8} {format : List Char} (placed : Placed buf st.offset [x]) :
    loadAll buf ('o' :: format) st =
      loadAll buf format ⟨0, 0, st.offset + 1⟩ >>= fun more =>
        .ok (.int x.toNat :: more.1, more.2) := by
  have field := unpackFrom_placed placed (List.cons_ne_nil x [])
  have number : beNat [x] = x.toNat := by simp [beNat]
  rw [number] at field
  have one : loadOne buf st 'o' = .ok (.int x.toNat, ⟨0, 0, st.offset + 1⟩) :=
    except_bind_eq_ok.mpr ⟨_, field, rfl⟩
  rw [loadAll, one]
  rfl

/-- The arguments of a start-ok, under their names. -/
def startOkArgs (peer : Val) (mechanism response locale : Str) : Args :=
  .ofList [(.peerProperties, peer), (.mechanism, .str mechanism), (.response, .str response),
    (.locale, .str locale)]

namespace StartOk
variable {mechanism : String} {response : Bytes} (m : StartOk mechanism response)

def frame (text : Str) : FrameValue :=
  .method ⟨m.raw.channelNumber.toNat, m.raw.payload.length + 8, .startOk,
    startOkArgs m.peer (str mechanism) text m.locale⟩

theorem response_fits (m : StartOk mechanism response) : response.length < 256 ^ 4 := by
  have room := m.raw.fits
  rw [m.payload] at room
  simp only [startOkPayload, counted, List.length_append] at room
  omega

theorem loads_payload : ∃ stop, loads "FsSs".toList m.raw.payload 4 =
    bytesToStr response >>= fun text =>
      .ok ([m.peer, .str (str mechanism), .str text, .str m.locale], stop) := by
  obtain ⟨⟨v, st⟩, first, more⟩ := except_bind_eq_ok.mp m.readable
  have ended : v = m.peer ∧ st.offset = 4 + m.peerProperties.length := by
    simpa [loadAll] using more
  obtain ⟨rfl, reached⟩ := ended
  have whole : Placed m.raw.payload 0 (startOkPayload m.peerProperties mechanism response
      m.locale) := by
    rw [← m.payload]
    exact List.prefix_rfl
  have behind := whole.right.right
  rw [length_beBytes, Nat.zero_add, ← reached] at behind
  have letters : "FsSs".toList = ['F', 's', 'S', 's'] := rfl
  rw [loads, letters, loadAll, first]
  show ∃ stop, (loadAll m.raw.payload ['s', 'S', 's'] st >>= fun more =>
    Except.ok (m.peer :: more.1, more.2)) = _
  rw [counted_loaded (.inl ⟨rfl, rfl⟩) behind.left m.named, bytesToStr_encodePass,
    counted_loaded (.inr ⟨rfl, rfl⟩) behind.right.left m.response_fits,
    counted_loaded (.inl ⟨rfl, rfl⟩) behind.right.right m.short, bytesToStr_encodePass]
  cases bytesToStr response with
  | error e => exact ⟨0, rfl⟩
  | ok text => exact ⟨_, rfl⟩

/-- The frame is read if the response is text. -/
theorem read (later : Bytes) : readFrame (m.raw.bytes ++ later) =
    (bytesToStr response).map fun text => some (m.frame text) := by
  obtain ⟨stop, loaded⟩ := m.loads_payload
  have code : unpackFrom 4 m.raw.payload 0 = .ok MethodId.startOk.code := by
    rw [m.payload]
    exact unpackFrom_beBytes (List.prefix_append _ _) (by decide)
  rw [RawFrame.readFrame_bytes, m.method, decodePayload, if_pos (by decide), code]
  show (Method.make _ _ MethodId.startOk.code m.raw.payload >>= fun method =>
    Except.ok (some (FrameValue.method method))) = _
  rw [Method.make, MethodId.ofCode_code]
  show ((decodeStartOk m.raw.payload >>= fun properties => Except.ok (Method.mk _ _ .startOk
    properties)) >>= fun method => Except.ok (some (FrameValue.method method))) = _
  rw [decodeStartOk, decodeArgs, loaded]
  cases bytesToStr response with
  | error e => rfl
  | ok text => rfl

end StartOk

/-! ## The credentials that are checked -/

theorem call_checkCredentials (env : Env) (c : ConnId) (username password : Str) (b : Broker) :
    ∃ accepted b', call env c (.checkCredentials username password) b = .ok accepted b' ∧
      b'.trace = b.trace ++ [.call c (.checkCredentials username password) (some accepted)] :=
  ⟨_, _, rfl, rfl⟩

theorem leadsTo_iff {raw : RawFrame} {f : FrameValue} {username password : Str}
    (read : ∀ later, readFrame (raw.bytes ++ later) = .ok (some f)) :
    LeadsTo raw username password ↔ f.credentials = .ok (username, password) := by
  constructor
  · rintro ⟨f', read', checks⟩
    have same := (read' []).symm.trans (read [])
    cases same
    let env : Env := ⟨[], [], id, fun _ => .rfl⟩
    let b := Broker.init env fun _ => ⟨1, by decide⟩
    obtain ⟨checked, accepted, b', ok⟩ := checks env 0 b
    obtain ⟨result, after, called, trace⟩ := call_checkCredentials env 0 username password b
    rcases checkStartOk_run env 0 f b with ⟨login, found, run⟩ | ⟨e, none, failed | refused⟩
    · obtain ⟨result', after', called', trace'⟩ := call_checkCredentials env 0 login.1 login.2 b
      have equal := run.symm.trans checked
      rw [called, called'] at equal
      cases equal
      rw [trace] at trace'
      cases List.append_cancel_left trace'
      exact found
    · rw [failed] at ok
      cases ok
    · rw [refused, called] at checked
      cases checked
      exact absurd trace (by simp)
  · intro found
    refine ⟨f, read, fun env c b => ?_⟩
    obtain ⟨accepted, b', called, _⟩ := call_checkCredentials env c username password b
    rcases checkStartOk_run env c f b with ⟨login, same, run⟩ | ⟨e, none, _⟩
    · rw [found] at same
      cases same
      exact ⟨run, accepted, b', run.trans called⟩
    · rw [found] at none
      cases none

/-! ## Which bytes are text -/

/-- An entry of a table is text when the four bytes of its length are. -/
theorem isUtf8_longString {name : String} {value : Credential} {rest : Bytes}
    (named : IsUtf8 (counted 1 (ascii name) ++ ascii "S")) (boundary : BeginsChar rest) :
    IsUtf8 (longString name value.val ++ rest) ↔
      IsUtf8 (beBytes 4 (encodePass value.val).length) ∧ IsUtf8 rest := by
  have split : longString name value.val ++ rest = (counted 1 (ascii name) ++ ascii "S") ++
      (beBytes 4 (encodePass value.val).length ++ (encodePass value.val ++ rest)) := by
    simp only [longString, counted, List.append_assoc]
  have text := isUtf8_encodePass fun c member => (value.property c member).1
  rw [split, isUtf8_append_left named, isUtf8_append (beginsChar_append
    (beginsChar_encodePass value.val) boundary), isUtf8_append_left text]

/-- The length of the value, as an entry of a table has it, is text by itself. -/
def LengthIsText (value : Credential) : Prop :=
  IsUtf8 (beBytes 4 (encodePass value.val).length)

theorem beginsChar_longString {name : String} (short : (ascii name).length < 128) (value : Str) :
    BeginsChar (longString name value) := by
  intro x first
  cases first
  rw [isContinuation, Bool.and_eq_false_iff, decide_eq_false_iff_not]
  left
  simp
  omega

theorem isUtf8_amqplainResponse (loginFirst : Bool) (username password : Credential) :
    IsUtf8 (amqplainResponse loginFirst username password) ↔
      LengthIsText username ∧ LengthIsText password := by
  have login : IsUtf8 (counted 1 (ascii "LOGIN") ++ ascii "S") := isUtf8_ascii (low_of_all (by decide))
  have secret : IsUtf8 (counted 1 (ascii "PASSWORD") ++ ascii "S") := isUtf8_ascii (low_of_all (by decide))
  have ended : IsUtf8 [] := ⟨[], rfl⟩
  have last : ∀ {name} {value : Credential}, IsUtf8 (counted 1 (ascii name) ++ ascii "S") →
      (IsUtf8 (longString name value.val) ↔ LengthIsText value) := by
    intro name value named
    have alone : IsUtf8 (longString name value.val ++ []) ↔ _ :=
      isUtf8_longString named (by simp [BeginsChar])
    rwa [List.append_nil, and_iff_left ended] at alone
  unfold amqplainResponse
  split_ifs
  · rw [isUtf8_longString login (beginsChar_longString (by decide) _), last secret]
    rfl
  · rw [isUtf8_longString secret (beginsChar_longString (by decide) _), last login, and_comm]
    rfl

/-! ## Credentials in a response -/

theorem longString_loaded {name : String} {key value : Str} {format : List Char}
    (placed : Placed buf st.offset (longString name value))
    (named : bytesToStr (ascii name) = .ok key) (short : (ascii name).length < 256 ^ 1)
    (fits : (encodePass value).length < 256 ^ 4) :
    loadAll buf ('s' :: 'o' :: 'S' :: format) st =
      loadAll buf format ⟨0, 0, st.offset + (longString name value).length⟩ >>= fun more =>
        .ok (.str key :: .int 83 :: .str value :: more.1, more.2) := by
  have tag := placed.right.left
  have text := placed.right.right
  have size : st.offset + (longString name value).length = st.offset +
      (counted 1 (ascii name)).length + 1 + (counted 4 (encodePass value)).length := by
    simp only [longString, List.length_append, Nat.add_assoc]
    rfl
  rw [counted_loaded (.inl ⟨rfl, rfl⟩) placed.left short, named, octet_loaded tag,
    counted_loaded (.inr ⟨rfl, rfl⟩) text fits, bytesToStr_encodePass, size]
  cases loadAll buf format ⟨0, 0, st.offset + (counted 1 (ascii name)).length + 1 +
    (counted 4 (encodePass value)).length⟩ with
  | error e => rfl
  | ok more => rfl

end

theorem plainCredentials_response (username password : Credential) :
    plainCredentials (0 :: username.val ++ 0 :: password.val) =
      .ok (username.val, password.val) := by
  have passes : ∀ (s : Credential) (rest : Str), (s.val ++ rest).dropWhile (· ≠ 0) =
      rest.dropWhile (· ≠ 0) ∧ (s.val ++ rest).takeWhile (· ≠ 0) =
        s.val ++ rest.takeWhile (· ≠ 0) := by
    intro s rest
    have all : ∀ c ∈ s.val, decide (c ≠ 0) = true := fun c member => by
      simpa using (s.property c member).2
    exact ⟨List.dropWhile_append_of_pos all, List.takeWhile_append_of_pos all⟩
  obtain ⟨drop, take⟩ := passes username (0 :: password.val)
  have last := (passes password []).1
  rw [List.append_nil, List.dropWhile_nil] at last
  have three : splitNul 3 (0 :: username.val ++ 0 :: password.val) =
      [[], username.val, password.val] := by
    rw [splitNul]
    show [] :: splitNul 2 (username.val ++ 0 :: password.val) = _
    rw [splitNul, drop, take]
    show [] :: (username.val ++ []) :: splitNul 1 password.val = _
    rw [splitNul, last, List.append_nil]
  rw [plainCredentials, three]

/-- The entries are taken by their places, whatever their names. -/
theorem amqplainCredentials_entries {text first second key key' : Str} {name name' : String}
    (encoded : encodeUtf8 text = .ok (longString name first ++ longString name' second))
    (named : bytesToStr (ascii name) = .ok key) (named' : bytesToStr (ascii name') = .ok key')
    (short : (ascii name).length < 256 ^ 1) (short' : (ascii name').length < 256 ^ 1)
    (fits : (encodePass first).length < 256 ^ 4) (fits' : (encodePass second).length < 256 ^ 4) :
    amqplainCredentials text = .ok (first, second) := by
  have letters : "soSsoS".toList = ['s', 'o', 'S', 's', 'o', 'S'] := rfl
  have whole : Placed (longString name first ++ longString name' second) 0
      (longString name first ++ longString name' second) := List.prefix_rfl
  rw [amqplainCredentials, encoded, letters]
  show (loads ['s', 'o', 'S', 's', 'o', 'S'] (longString name first ++ longString name' second) 0
    >>= _) = _
  rw [loads, longString_loaded whole.left named short fits,
    longString_loaded whole.right named' short' fits']
  rfl

theorem longString_fits (name : String) {value : Str}
    (room : (longString name value).length < 256 ^ 4) : (encodePass value).length < 256 ^ 4 := by
  simp only [longString, counted, List.length_append] at room
  omega

namespace StartOk
variable {mechanism : String} {response : Bytes} (m : StartOk mechanism response)

theorem leadsTo_iff {text username password : Str} (decoded : bytesToStr response = .ok text) :
    LeadsTo m.raw username password ↔ (m.frame text).credentials = .ok (username, password) :=
  MockAmqp.leadsTo_iff fun later => by rw [m.read, decoded]; rfl

end StartOk

/-- A PLAIN response always has the credentials checked that it carries. -/
theorem plain_leadsTo {username password : Credential}
    (m : StartOk "PLAIN" (plainResponse username password)) :
    LeadsTo m.raw username.val password.val := by
  rw [m.leadsTo_iff (bytesToStr_encodePass _)]
  exact plainCredentials_response username password

/-- An AMQPLAIN response has the first value checked as a name and the second as a password. -/
theorem amqplain_leadsTo_iff {response : Bytes} {name name' : String} {first second : Credential}
    {username password : Str} (m : StartOk "AMQPLAIN" response)
    (entries : response = longString name first.val ++ longString name' second.val)
    (low : ∀ x ∈ ascii name, x.toNat < 0x80) (low' : ∀ x ∈ ascii name', x.toNat < 0x80)
    (short : (ascii name).length < 256 ^ 1) (short' : (ascii name').length < 256 ^ 1) :
    LeadsTo m.raw username password ↔
      IsUtf8 response ∧ first.val = username ∧ second.val = password := by
  have room := m.response_fits
  rw [entries, List.length_append] at room
  have fits : (encodePass first.val).length < 256 ^ 4 := longString_fits name (by omega)
  have fits' : (encodePass second.val).length < 256 ^ 4 :=
    longString_fits name' (by omega)
  have credentials : ∀ text, (m.frame text).credentials = amqplainCredentials text := fun _ => rfl
  by_cases whole : IsUtf8 response
  · obtain ⟨text, decoded, encoded⟩ := isUtf8_iff.mp whole
    rw [m.leadsTo_iff decoded, credentials, and_iff_right whole]
    rw [entries] at encoded
    rw [amqplainCredentials_entries encoded (decodeUtf8_ascii true low) (decodeUtf8_ascii true low')
      short short' fits fits']
    simp
  · refine iff_of_false (fun leads => ?_) fun h => whole h.1
    cases decoded : bytesToStr response with
    | error e =>
        obtain ⟨f, read, _⟩ := leads
        have failed := m.read []
        rw [decoded, read []] at failed
        cases failed
    | ok text =>
        rw [m.leadsTo_iff decoded, credentials] at leads
        obtain ⟨b, encoded, _⟩ := except_bind_eq_ok.mp leads
        exact whole (isUtf8_of_encoded decoded encoded)

/-- The two mechanisms agree when the login comes first, or is the password, and the lengths of
both are text. -/
theorem mechanisms_agree_iff {username password : Credential} {loginFirst : Bool}
    (plain : StartOk "PLAIN" (plainResponse username password))
    (amqplain : StartOk "AMQPLAIN" (amqplainResponse loginFirst username password)) :
    (LeadsTo plain.raw username.val password.val ∧
        LeadsTo amqplain.raw username.val password.val) ↔
      (loginFirst = true ∨ username = password) ∧
        LengthIsText username ∧ LengthIsText password := by
  have text := isUtf8_amqplainResponse loginFirst username password
  rw [and_iff_right (plain_leadsTo plain), ← text]
  cases loginFirst with
  | true =>
      rw [amqplain_leadsTo_iff amqplain (if_pos rfl) (low_of_all (by decide))
        (low_of_all (by decide)) (by decide) (by decide)]
      simp
  | false =>
      rw [amqplain_leadsTo_iff amqplain (if_neg (by decide)) (low_of_all (by decide))
        (low_of_all (by decide)) (by decide) (by decide)]
      have same : (password.val = username.val ∧ username.val = password.val) ↔
          username = password :=
        ⟨fun h => Subtype.ext h.2, fun h => by subst h; exact ⟨rfl, rfl⟩⟩
      rw [same, and_comm]
      simp

/-- Lengths of one byte without its highest bit are text. -/
theorem lengthIsText_of_short {value : Credential} (short : (encodePass value.val).length < 128) :
    LengthIsText value := by
  refine isUtf8_ascii fun x member => ?_
  simp only [beBytes, List.nil_append, List.append_assoc, List.mem_append, List.mem_singleton]
    at member
  rcases member with rfl | rfl | rfl | rfl
  all_goals
    rw [toNat_ofNat (by omega)]
    omega

/-- A start-ok without peer properties. -/
def StartOk.bare (mechanism : String) (response : Bytes)
    (named : (encodePass (str mechanism)).length < 256) (room : response.length < 2 ^ 31) :
    StartOk mechanism response where
  raw :=
    { frameType := 1
      channelNumber := 0
      payload := startOkPayload (beBytes 4 0) mechanism response (str "en_US")
      fits := by
        have locale : (encodePass (str "en_US")).length = 5 := by decide
        simp only [startOkPayload, counted, List.length_append, length_beBytes, locale]
        omega }
  peerProperties := beBytes 4 0
  peer := .dict []
  locale := str "en_US"
  method := rfl
  payload := rfl
  readable := by
    have table : Placed (startOkPayload (beBytes 4 0) mechanism response (str "en_US")) 4
        (beBytes 4 0) := by
      have there : Placed (startOkPayload (beBytes 4 0) mechanism response (str "en_US")) 0
          (startOkPayload (beBytes 4 0) mechanism response (str "en_US")) := List.prefix_rfl
      exact there.right.left
    have none : ∀ buf : Bytes, readTable (itemFuel buf) buf 8 8 [] = .ok ([], 8) := by
      intro buf
      rw [itemFuel, readTable, if_neg (by decide)]
    exact except_bind_eq_ok.mpr ⟨_, except_bind_eq_ok.mpr ⟨_, unpackFrom_beBytes table (by decide),
      except_bind_eq_ok.mpr ⟨_, none _, rfl⟩⟩, rfl⟩
  named := named
  short := by decide

def guest : Credential := ⟨str "guest", by
  have all : (str "guest").all (fun c => !isSurrogate c.val && c != 0) = true := by decide
  simpa using all⟩

/-- A name of 128 bytes. -/
def longName : Credential := ⟨List.replicate 128 97, by
  intro c member
  rw [List.eq_of_mem_replicate member]
  decide⟩

theorem guest_mechanisms_agree :
    LeadsTo (StartOk.bare "PLAIN" (plainResponse guest guest) (by decide)
        (by decide +kernel)).raw guest.val guest.val ∧
      LeadsTo (StartOk.bare "AMQPLAIN" (amqplainResponse true guest guest) (by decide)
        (by decide +kernel)).raw guest.val guest.val :=
  (mechanisms_agree_iff _ _).mpr ⟨.inl rfl, lengthIsText_of_short (by decide),
    lengthIsText_of_short (by decide)⟩

theorem long_name_disagrees : ¬ ∀ (username password : Credential) (loginFirst : Bool)
    (plain : StartOk "PLAIN" (plainResponse username password))
    (amqplain : StartOk "AMQPLAIN" (amqplainResponse loginFirst username password)),
    LeadsTo plain.raw username.val password.val ∧
      LeadsTo amqplain.raw username.val password.val := by
  intro agree
  obtain ⟨_, leads⟩ := agree longName guest true
    (.bare _ _ (by decide) (by decide +kernel)) (.bare _ _ (by decide) (by decide +kernel))
  obtain ⟨text, _⟩ := (amqplain_leadsTo_iff _ (if_pos rfl) (low_of_all (by decide))
    (low_of_all (by decide)) (by decide) (by decide)).mp leads
  obtain ⟨⟨s, read⟩, _⟩ := (isUtf8_amqplainResponse true longName guest).mp text
  have length : (encodePass longName.val).length = 128 := by decide +kernel
  rw [length] at read
  cases read

end MockAmqp
