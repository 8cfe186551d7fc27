import PqProxy.Wire

/-! A wire library that speaks version 3 of the protocol. Concrete runs use it, and it shows that
what the proxy relies on can be met. -/

namespace WirePg

open Framing

/-- A typed message around `body`. -/
def frame (t : UInt8) (body : Bytes) : Bytes := t :: putBe32 (body.length + 4) ++ body

def be16 (v : Int) : Bytes := [UInt8.ofNat ((v % 65536).toNat / 256), UInt8.ofNat (v % 65536).toNat]

/-- A zero-terminated text field; longer texts do not fit the fields of the library. -/
def cstring (t : Text) : Bytes := Text.bytes (t.take 255) ++ [0]

def encode : Reply → Bytes
  | .authOk => frame 82 (putBe32 0)
  | .readyForQuery => frame msgReadyForQuery [73]
  | .parseComplete => frame msgParseComplete []
  | .bindComplete => frame msgBindComplete []
  | .commandComplete tag => frame msgCommandComplete (cstring tag)
  | .errorResponse severity code message =>
      frame msgErrorResponse
        (83 :: cstring severity ++ 67 :: cstring code ++ 77 :: cstring message ++ [0])

def encodeParam (p : PqBindParam) : Bytes :=
  match p.value with
  | none => putBe32 4294967295
  | some v => putBe32 v.length ++ v

def encodeClient : ClientMsg → Bytes
  | .parse statement query oids =>
      frame 80 (cstring statement ++ query.bytes ++ 0 :: be16 oids.length ++ oids.flatMap putBe32)
  | .bind portal statement params resultFormats =>
      frame 66 (cstring portal ++ cstring statement ++
        be16 params.length ++ params.flatMap (fun p => be16 p.format) ++
        be16 params.length ++ params.flatMap encodeParam ++
        be16 resultFormats.length ++ resultFormats.flatMap be16)
  | .execute portal maxRows => frame 69 (cstring portal ++ putBe32 maxRows)
  | .sync => frame 83 []
  | .query sql => frame 81 (sql.bytes ++ [0])

def replaceSlot (bind : PqBind) (slot : Nat) (id : Text) : Option (List PqBindParam) :=
  if slot < bind.params.length then some (bind.params.set slot ⟨0, some id.bytes⟩) else none

def msgPeek (m : Bytes) : Option (UInt8 × Nat) :=
  match typeOf m, lengthField m with
  | some t, some len => some (t, 1 + len)
  | _, _ => none

end WirePg

open WirePg in
def pgWire : Pqwire where
  encode := encode
  accepts := fun _ _ => true
  encodeClient := encodeClient
  acceptsClient := fun _ _ => true
  rewriteIdentity := replaceSlot
  injectIdentity := replaceSlot
  preparedFromParse := fun p => some ⟨p.statement, p.query, p.paramTypeOids, 0⟩
  msgPeek := msgPeek
  feedBackendMsg := fun st m => some
    ⟨st.sawError || Framing.typeOf m == some msgErrorResponse,
      st.complete || Framing.typeOf m == some msgReadyForQuery⟩
  -- Authentication, BackendKeyData and ParameterStatus never reach the frontend
  filterBackendType := fun t skip =>
    t == 82 || t == 75 || t == 83 || (skip && (t == msgParseComplete || t == msgBindComplete))
  paramSetText := fun v => some (v.takeWhile (· != 0))
  paramSetBinary := some
  maxBindParams := 64
  maxStmtName := 64
  maxPortalName := 64
  maxQueryLen := 8192

namespace WirePg

open Framing

theorem be32_putBe32 {v : Nat} (h : v < 4294967296) :
    be32 (UInt8.ofNat (v / 16777216)) (UInt8.ofNat (v / 65536)) (UInt8.ofNat (v / 256))
      (UInt8.ofNat v) = v := by
  simp only [be32, UInt8.toNat_ofNat']
  omega

theorem lengthField_frame (t : UInt8) (body : Bytes) :
    lengthField (frame t body) = some (be32 (UInt8.ofNat ((body.length + 4) / 16777216))
      (UInt8.ofNat ((body.length + 4) / 65536)) (UInt8.ofNat ((body.length + 4) / 256))
      (UInt8.ofNat (body.length + 4))) := rfl

theorem length_frame (t : UInt8) (body : Bytes) : (frame t body).length = body.length + 5 := by
  simp [frame, putBe32]

theorem framed_frame (t : UInt8) {body : Bytes} (h : body.length < 4294967292) :
    Framed (frame t body) := by
  have hlen := length_frame t body
  refine ⟨?_, by omega⟩
  rw [lengthField_frame, be32_putBe32 (by omega), hlen]
  congr 1

theorem length_cstring (t : Text) : (cstring t).length ≤ 256 := by
  rw [cstring, Text.bytes, List.length_append, List.length_map, List.length_take,
    List.length_singleton]
  omega

theorem framed_encode (r : Reply) : Framed (encode r) := by
  cases r with
  | authOk => exact framed_frame _ (by decide)
  | readyForQuery => exact framed_frame _ (by decide)
  | parseComplete => exact framed_frame _ (by decide)
  | bindComplete => exact framed_frame _ (by decide)
  | commandComplete tag =>
      have := length_cstring tag
      exact framed_frame _ (by omega)
  | errorResponse severity code message =>
      have h1 := length_cstring severity
      have h2 := length_cstring code
      have h3 := length_cstring message
      apply framed_frame
      simp only [List.length_cons, List.length_append, List.length_nil]
      omega

theorem appends : pgWire.Appends where
  accepts := fun _ _ => rfl
  framed := framed_encode
  typeOf := by
    intro r
    cases r <;> rfl

theorem preparesCopies : pgWire.PreparesCopies where
  copies := by
    rintro p stmt ⟨⟩
    exact ⟨rfl, rfl, rfl⟩

theorem replaceSlot_eq {bind : PqBind} {slot : Nat} {id : Text} {ps : List PqBindParam}
    (h : replaceSlot bind slot id = some ps) : ps = bind.params.set slot ⟨0, some id.bytes⟩ := by
  rw [replaceSlot] at h
  split at h
  · exact (Option.some.inj h).symm
  · cases h

theorem replacesSlot : pgWire.ReplacesSlot where
  rewrites := fun _ _ _ _ => replaceSlot_eq
  injects := fun _ _ _ _ => replaceSlot_eq

theorem succeeds : pgWire.Succeeds where
  prepares := fun _ => ⟨_, rfl⟩
  acceptsClient := fun _ _ => rfl
  rewrites := fun _ _ _ h => ⟨_, if_pos h⟩

theorem peeks : pgWire.Peeks where
  typeOf := by
    intro m t total h
    change msgPeek m = some (t, total) at h
    unfold msgPeek at h
    split at h
    · rename_i t' len htype hlen
      cases h
      exact htype
    · cases h

theorem followsPipeline : pgWire.FollowsPipeline where
  feed := fun _ _ _ => rfl
  keeps := by decide
  skips := by decide

theorem peeksLength : pgWire.PeeksLength where
  peek := by
    intro m hm
    cases m with
    | nil => exact absurd hm.2 (by decide)
    | cons t rest =>
        have hfive := hm.2
        change msgPeek _ = _
        rw [msgPeek, hm.1]
        dsimp only [typeOf, List.head?_cons]
        rw [Nat.add_sub_cancel' (by omega), List.headD_cons]

end WirePg
