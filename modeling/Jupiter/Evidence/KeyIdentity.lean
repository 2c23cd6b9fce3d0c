/-
Which API key a record of evidence stands for.

The recorder hashes the key it is given, so that a record tells keys apart without showing them. But what it is given is
the metadata of the request, in which the key has been redacted for the log already.

SHA-256 is a parameter.
-/
import Jupiter.Evidence.Record
import Jupiter.Proxy.Metadata

namespace Jupiter.Evidence

open Jupiter.Go Jupiter.Proxy

def hexDigit (n : Nat) : UInt8 := UInt8.ofNat (if n < 10 then 48 + n else 87 + n)

def hexEncode (b : Bytes) : Bytes := b.flatMap fun x => [hexDigit (x.toNat / 16), hexDigit (x.toNat % 16)]

section Recorder

variable (sum256 : Bytes → Bytes)

/-- `RedactAPIKey` of the recorder. -/
def hashAPIKey (apiKey : Bytes) : Bytes :=
  if apiKey = [] then [] else Bytes.ascii "sha256:" ++ hexEncode (sum256 apiKey)

def extractHeaders (requestMeta : RequestMetadata) : List (String × String) :=
  if requestMeta.userAgent ≠ "" then [("user-agent", requestMeta.userAgent)] else []

/-- `createEvidenceRecord`: the metadata of the request, put into the record. -/
def createEvidenceRecord (redactAPIKeys : Bool) (requestMeta : RequestMetadata) (now : Zoned) (record : EvidenceRecord) :
    EvidenceRecord :=
  { record with
    requestTime := requestMeta.timestamp
    policyEvalTime := now
    recordedTime := now
    requestMethod := requestMeta.method
    requestPath := requestMeta.path
    requestHeaders := extractHeaders requestMeta
    userID := requestMeta.userID
    apiKey := Bytes.text (if redactAPIKeys then hashAPIKey sum256 requestMeta.apiKey else requestMeta.apiKey)
    ipAddress := requestMeta.remoteAddr }

end Recorder

/-! ## Hashes as texts -/

theorem text_injective : Function.Injective Bytes.text := by
  intro b b' h
  refine List.map_injective_iff.2 ?_ (String.ofList_injective h)
  intro x y hxy
  have hnat := congrArg Char.toNat hxy
  have hvalid (z : UInt8) : (Char.ofNat z.toNat).toNat = z.toNat := by
    rw [Char.ofNat, dif_pos (.inl (Nat.lt_trans z.toNat_lt (by decide)))]
    rfl
  rw [hvalid, hvalid] at hnat
  exact UInt8.toNat_inj.1 hnat

theorem hexDigit_inj : ∀ m < 16, ∀ n < 16, hexDigit m = hexDigit n → m = n := by decide

theorem hexEncode_injective : Function.Injective hexEncode := by
  intro b b' h
  induction b generalizing b' with
  | nil =>
    cases b' with
    | nil => rfl
    | cons y b' => cases h
  | cons x b ih =>
    cases b' with
    | nil => cases h
    | cons y b' =>
      obtain ⟨hhigh, hrest⟩ := List.cons.inj h
      obtain ⟨hlow, htail⟩ := List.cons.inj hrest
      have hhigh' := hexDigit_inj _ (by have := x.toNat_lt; omega) _ (by have := y.toNat_lt; omega) hhigh
      have hlow' := hexDigit_inj _ (Nat.mod_lt _ (by decide)) _ (Nat.mod_lt _ (by decide)) hlow
      have hxy : x = y := UInt8.toNat_inj.1 (by omega)
      rw [hxy, ih htail]

theorem hashAPIKey_injective {sum256 : Bytes → Bytes} (hinj : Function.Injective sum256) :
    Function.Injective (hashAPIKey sum256) := by
  intro k k' h
  unfold hashAPIKey at h
  split at h
  · split at h
    · rename_i hk hk'
      rw [hk, hk']
    · cases h
  · split at h
    · cases h
    · exact hinj (hexEncode_injective (List.append_cancel_left h))

/-! ## Records -/

/-- With SHA-256 injective, the records of two requests carry different keys when the keys are different, and equal ones
when they are equal, if and only if the keys are equal or the redaction for the log tells them apart. -/
theorem record_identifies_key_iff (sum256 : Bytes → Bytes) (hinj : Function.Injective sum256)
    (r r' : IncomingRequest) (req req' : ChatCompletionRequest) (received received' now now' : Zoned)
    (rest rest' : EvidenceRecord) :
    ((r.extractAPIKey ≠ r'.extractAPIKey →
        (createEvidenceRecord sum256 true (extractRequestMetadata r req received) now rest).apiKey ≠
          (createEvidenceRecord sum256 true (extractRequestMetadata r' req' received') now' rest').apiKey) ∧
      (r.extractAPIKey = r'.extractAPIKey →
        (createEvidenceRecord sum256 true (extractRequestMetadata r req received) now rest).apiKey =
          (createEvidenceRecord sum256 true (extractRequestMetadata r' req' received') now' rest').apiKey)) ↔
      r.extractAPIKey = r'.extractAPIKey ∨ ToldApart r.extractAPIKey r'.extractAPIKey := by
  have hrecord : (createEvidenceRecord sum256 true (extractRequestMetadata r req received) now rest).apiKey =
      (createEvidenceRecord sum256 true (extractRequestMetadata r' req' received') now' rest').apiKey ↔
      redactAPIKey r.extractAPIKey = redactAPIKey r'.extractAPIKey :=
    (text_injective.comp (hashAPIKey_injective hinj)).eq_iff
  have htold := hrecord.not.trans redactAPIKey_ne_iff
  constructor
  · rintro ⟨hdiff, -⟩
    by_cases hkeys : r.extractAPIKey = r'.extractAPIKey
    · exact .inl hkeys
    · exact .inr (htold.1 (hdiff hkeys))
  · intro hkeys
    refine ⟨fun hne => htold.2 (hkeys.resolve_left hne), fun heq => ?_⟩
    rw [hrecord, heq]

def firstShown : Bytes := Bytes.ascii "sk-1234...cdef"

def secondShown : Bytes := Bytes.ascii "sk-5678...cdef"

def firstDigest : Bytes :=
  [0x2e, 0xf6, 0x39, 0xf1, 0x99, 0xe7, 0xcc, 0x10, 0x05, 0x51, 0x22, 0xef, 0xa3, 0x83, 0x5d, 0xd1,
    0xf0, 0xcc, 0x0b, 0x57, 0x8c, 0x8d, 0x6b, 0x61, 0xb4, 0x5e, 0x04, 0xef, 0x3f, 0x6a, 0x19, 0x4c]

def secondDigest : Bytes :=
  [0x0b, 0x21, 0x56, 0x6f, 0xd6, 0x23, 0x53, 0xd4, 0xc2, 0xb9, 0x00, 0x77, 0x44, 0x8e, 0x9c, 0x66,
    0xfa, 0x8c, 0xfa, 0x29, 0x37, 0x4f, 0xab, 0x79, 0xe0, 0xe0, 0xa4, 0x34, 0x56, 0x74, 0x63, 0x21]

def twoDigests (b : Bytes) : Bytes :=
  if b = firstShown then firstDigest
  else if b = secondShown then secondDigest
  else List.replicate 33 0 ++ b

theorem twoDigests_injective : Function.Injective twoDigests := by
  have hlen : firstDigest.length = 32 ∧ secondDigest.length = 32 := ⟨rfl, rfl⟩
  have hne : firstDigest ≠ secondDigest := by decide
  intro a b h
  have hsame : List.replicate 33 0 ++ a = List.replicate 33 0 ++ b → a = b := List.append_cancel_left
  unfold twoDigests at h
  split_ifs at h <;> grind

def withKey (key : String) : IncomingRequest := { authorization := Bytes.ascii ("Bearer " ++ key) }

theorem record_identifies_shown_keys :
    (createEvidenceRecord twoDigests true (extractRequestMetadata (withKey "sk-1234567890abcdef") {} ⟨0, 0⟩) ⟨0, 0⟩
        { id := "e1", requestID := "r1", requestTime := ⟨0, 0⟩ }).apiKey ≠
      (createEvidenceRecord twoDigests true (extractRequestMetadata (withKey "sk-5678567890abcdef") {} ⟨0, 0⟩) ⟨0, 0⟩
        { id := "e2", requestID := "r2", requestTime := ⟨0, 0⟩ }).apiKey :=
  ((record_identifies_key_iff twoDigests twoDigests_injective (withKey "sk-1234567890abcdef")
    (withKey "sk-5678567890abcdef") {} {} ⟨0, 0⟩ ⟨0, 0⟩ ⟨0, 0⟩ ⟨0, 0⟩ _ _).2
      (.inr (by unfold ToldApart; decide))).1 (by decide)

theorem record_confuses_keys :
    (withKey "sk-1234567890abcdef").extractAPIKey ≠ (withKey "sk-1234098765fedcdef").extractAPIKey ∧
      (createEvidenceRecord twoDigests true (extractRequestMetadata (withKey "sk-1234567890abcdef") {} ⟨0, 0⟩) ⟨0, 0⟩
        { id := "e1", requestID := "r1", requestTime := ⟨0, 0⟩ }).apiKey =
      (createEvidenceRecord twoDigests true (extractRequestMetadata (withKey "sk-1234098765fedcdef") {} ⟨0, 0⟩) ⟨0, 0⟩
        { id := "e2", requestID := "r2", requestTime := ⟨0, 0⟩ }).apiKey := by
  have hshown : redactAPIKey (withKey "sk-1234567890abcdef").extractAPIKey =
      redactAPIKey (withKey "sk-1234098765fedcdef").extractAPIKey := by decide
  exact ⟨by decide, congrArg (fun k => Bytes.text (hashAPIKey twoDigests k)) hshown⟩

end Jupiter.Evidence
