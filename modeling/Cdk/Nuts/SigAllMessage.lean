import Cdk.Lib.Delimited
import Cdk.Nuts.P2pk
import Cdk.Nuts.Texts

/-!
# The message that SIG_ALL signs

The message is the concatenation of the secrets of the inputs, the points of
the outputs in hexadecimal and, for a melt, the quote identifier. It leaves out
the amounts and the keysets of the outputs, and nothing separates the secrets.

It still determines the secrets and the points where the secrets delimit
themselves, as the JSON texts of NUT-10 secrets do: such a text is an array, so
no proper beginning of it is one, and it starts with a bracket that no
hexadecimal point starts with.
-/

namespace Cdk

open Lib

/-! ## The text of a NUT-10 secret -/

/-- A character inside a JSON string, as `serde_json` escapes it. -/
def jsonChar (c : Char) : List Char :=
  if c = '"' then ['\\', '"']
  else if c = '\\' then ['\\', '\\']
  else if c = '\x08' then ['\\', 'b']
  else if c = '\t' then ['\\', 't']
  else if c = '\n' then ['\\', 'n']
  else if c = '\x0c' then ['\\', 'f']
  else if c = '\r' then ['\\', 'r']
  else if c.toNat < 32 then
    ['\\', 'u', '0', '0', Nat.digitChar (c.toNat / 16), Nat.digitChar (c.toNat % 16)]
  else [c]

def jsonString (s : String) : List Char := '"' :: (s.toList.flatMap jsonChar ++ ['"'])

def jsonArray {α : Type} (item : α → List Char) (items : List α) : List Char :=
  '[' :: ((match items with
    | [] => []
    | first :: rest => item first ++ rest.flatMap fun next => ',' :: item next) ++ [']'])

/-- The name of a kind. -/
def Kind.toText : Kind → String
  | .p2pk => "P2PK"
  | .htlc => "HTLC"

/-- The tags of a secret, which are left out when there are none. -/
def SecretData.jsonTags (tags : Option (List (List String))) : List Char :=
  tags.elim [] fun tags => ",\"tags\":".toList ++ jsonArray (jsonArray jsonString) tags

/-- `serde_json::to_string` of a NUT-10 secret. -/
def Nut10Secret.toText (s : Nut10Secret) : String :=
  String.ofList ("[".toList ++ (jsonString s.kind.toText ++
    (",\x7b\"nonce\":".toList ++ (jsonString s.secretData.nonce ++
      (",\"data\":".toList ++ (jsonString s.secretData.data ++
        ((SecretData.jsonTags s.secretData.tags ++ ['\x7d']) ++ [']'])))))))

section Json

/-- Read one escaped character. -/
def readJsonChar : List Char → Option (Char × List Char)
  | '\\' :: '"' :: rest => some ('"', rest)
  | '\\' :: '\\' :: rest => some ('\\', rest)
  | '\\' :: 'b' :: rest => some ('\x08', rest)
  | '\\' :: 't' :: rest => some ('\t', rest)
  | '\\' :: 'n' :: rest => some ('\n', rest)
  | '\\' :: 'f' :: rest => some ('\x0c', rest)
  | '\\' :: 'r' :: rest => some ('\r', rest)
  | '\\' :: 'u' :: '0' :: '0' :: high :: low :: rest => do
      let high ← hexVal high
      let low ← hexVal low
      some (Char.ofNat (high * 16 + low), rest)
  | c :: rest => some (c, rest)
  | [] => none

theorem readJsonChar_jsonChar (c : Char) (rest : List Char) :
    readJsonChar (jsonChar c ++ rest) = some (c, rest) := by
  unfold jsonChar
  split_ifs with h₁ h₂ h₃ h₄ h₅ h₆ h₇ h₈
  · rw [h₁]; rfl
  · rw [h₂]; rfl
  · rw [h₃]; rfl
  · rw [h₄]; rfl
  · rw [h₅]; rfl
  · rw [h₆]; rfl
  · rw [h₇]; rfl
  · have hhigh : c.toNat / 16 < 16 := by omega
    have hlow : c.toNat % 16 < 16 := Nat.mod_lt _ (by decide)
    have hvalue : c.toNat / 16 * 16 + c.toNat % 16 = c.toNat := by omega
    simp [readJsonChar, hexVal_digitChar hhigh, hexVal_digitChar hlow, hvalue, Char.ofNat_toNat]
  · rw [List.singleton_append, readJsonChar]
    all_goals simp_all

theorem jsonChar_delimited : Delimited jsonChar := .of_read readJsonChar_jsonChar

theorem jsonChar_startsWith (c : Char) : StartsWith (fun a => a ≠ '"') (jsonChar c) := by
  unfold jsonChar
  split_ifs <;> simp_all [startsWith_cons]

theorem jsonString_delimited : Delimited jsonString := by
  have hchars : Delimited fun s : String => s.toList.flatMap jsonChar ++ ['"'] :=
    (jsonChar_delimited.closed jsonChar_startsWith (fun h => h rfl)).comp
      fun _ _ h => String.toList_inj.mp h
  exact hchars.prepend ['"']

theorem jsonArray_delimited {α : Type} {item : α → List Char} (h : Delimited item)
    (hstart : ∀ a, StartsWith (fun c => c ≠ ']') (item a)) : Delimited (jsonArray item) :=
  (h.separated hstart (fun h => h rfl) (by decide)).prepend ['[']

/-- The text of a secret and what follows it can be told from their concatenation. -/
theorem toText_delimited : Delimited fun s : Nut10Secret => s.toText.toList := by
  have hstring : ∀ s, StartsWith (fun c => c ≠ ']') (jsonString s) := fun s =>
    ⟨'"', _, rfl, by decide⟩
  have harray : ∀ l, StartsWith (fun c => c ≠ ']') (jsonArray jsonString l) := fun l =>
    ⟨'[', _, rfl, by decide⟩
  have htags : Delimited fun tags => (SecretData.jsonTags tags ++ ['\x7d']) ++ [']'] :=
    (((jsonArray_delimited (jsonArray_delimited jsonString_delimited hstring) harray).prepend
      ",\"tags\":".toList).option (P := fun c => c = ',') (fun _ => ⟨',', _, rfl, rfl⟩)
        (by decide)).postpend [']']
  have hkind : Delimited fun k : Kind => jsonString k.toText :=
    jsonString_delimited.comp (by
      intro a b h
      cases a <;> cases b <;> simp_all [Kind.toText])
  have hall := (hkind.pair ((jsonString_delimited.pair ((jsonString_delimited.pair htags).prepend
    ",\"data\":".toList)).prepend ",\x7b\"nonce\":".toList)).prepend "[".toList
  have hsecret := hall.comp (f := fun s : Nut10Secret =>
    (s.kind, s.secretData.nonce, s.secretData.data, s.secretData.tags)) (by
      rintro ⟨_, _, _, _⟩ ⟨_, _, _, _⟩ h
      simp_all)
  simpa only [Nut10Secret.toText, String.toList_ofList] using hsecret

end Json

/-! ## What the message determines -/

/-- No text of the set starts another one, and all of them start with a bracket. -/
structure Bracketed (S : Set String) : Prop where
  apart : ∀ s ∈ S, ∀ t ∈ S, s.toList <+: t.toList → s = t
  bracket : ∀ s ∈ S, StartsWith (fun c => c = '[') s.toList

/-- The texts of NUT-10 secrets. -/
def nut10Texts : Set String := Set.range Nut10Secret.toText

theorem nut10Texts_bracketed : Bracketed nut10Texts where
  apart := by
    rintro _ ⟨s, rfl⟩ _ ⟨t, rfl⟩ ⟨rest, h⟩
    have heq : s.toText.toList ++ rest = t.toText.toList ++ [] := by rw [h, List.append_nil]
    rw [(toText_delimited s t rest [] heq).1]
  bracket := by
    rintro _ ⟨s, rfl⟩
    rw [Nut10Secret.toText, String.toList_ofList]
    exact ⟨'[', _, rfl, rfl⟩

section Message

variable {S : Set String}

theorem Bracketed.delimited (hS : Bracketed S) : Delimited fun s : S => s.val.toList := by
  rintro ⟨s, hs⟩ ⟨t, ht⟩ rest rest' heq
  have hst : s = t := by
    rcases Nat.le_total s.toList.length t.toList.length with hle | hle
    · exact hS.apart s hs t ht (List.prefix_of_prefix_length_le ⟨rest, heq⟩
        ⟨rest', rfl⟩ hle)
    · exact (hS.apart t ht s hs (List.prefix_of_prefix_length_le ⟨rest', heq.symm⟩
        ⟨rest, rfl⟩ hle)).symm
  subst hst
  exact ⟨rfl, List.append_cancel_left heq⟩

/-- Texts of the set, taken as its elements. -/
theorem exists_elements {texts : List String} (h : ∀ text ∈ texts, text ∈ S) :
    ∃ elements : List S, elements.map Subtype.val = texts :=
  ⟨texts.pmap Subtype.mk h, by simp [List.map_pmap]⟩

/-- The secrets are determined by their concatenation, whatever follows without a bracket. -/
theorem Bracketed.join_append (hS : Bracketed S) {secrets secrets' : List String}
    (h : ∀ s ∈ secrets, s ∈ S) (h' : ∀ s ∈ secrets', s ∈ S) {rest rest' : List Char}
    (hr : ¬ StartsWith (fun c => c = '[') rest) (hr' : ¬ StartsWith (fun c => c = '[') rest')
    (heq : secrets.flatMap String.toList ++ rest = secrets'.flatMap String.toList ++ rest') :
    secrets = secrets' ∧ rest = rest' := by
  obtain ⟨elements, rfl⟩ := exists_elements h
  obtain ⟨elements', rfl⟩ := exists_elements h'
  rw [List.flatMap_map, List.flatMap_map] at heq
  obtain ⟨rfl, hrest⟩ := hS.delimited.flatMap (fun s => hS.bracket s.val s.property) hr hr' heq
  exact ⟨rfl, hrest⟩

/-- The points of the outputs in hexadecimal. -/
def pointTexts (points : List PublicKey) : List Char :=
  points.flatMap fun point => point.toHex.toList

theorem toHex_delimited : Delimited fun point : PublicKey => point.toHex.toList :=
  .of_length (fun _ _ h => toHex_injective (String.toList_inj.mp h)) length_toHex

theorem pointTexts_injective : Function.Injective pointTexts := by
  intro points points' heq
  have hstart : ∀ point : PublicKey, StartsWith (fun _ => True) point.toHex.toList := by
    intro point
    obtain ⟨c, tail, hc⟩ := List.exists_cons_of_length_eq_add_one (length_toHex point)
    exact ⟨c, tail, hc, trivial⟩
  have happ : pointTexts points ++ [] = pointTexts points' ++ [] := by rw [heq]
  exact (toHex_delimited.flatMap hstart not_startsWith_nil not_startsWith_nil happ).1

/-- Points start with a digit. -/
theorem not_bracket_pointTexts (points : List PublicKey) {rest : List Char}
    (hr : ¬ StartsWith (fun c => c = '[') rest) :
    ¬ StartsWith (fun c => c = '[') (pointTexts points ++ rest) := by
  cases points with
  | nil => exact hr
  | cons point points =>
      have hzero : StartsWith (fun c => c = '0') point.toHex.toList := by
        cases h : point.odd <;> simp [PublicKey.toHex, h, startsWith_cons]
      obtain ⟨c, tail, hc, rfl⟩ := hzero
      rintro ⟨b, tail', hb, rfl⟩
      simp only [pointTexts, List.flatMap_cons, hc, List.cons_append, List.cons.injEq] at hb
      exact absurd hb.1 (by decide)

theorem SwapRequest.toList_sigAllMsg (request : SwapRequest) :
    request.sigAllMsgToSign.toList =
      (request.inputs.map Proof.secret).flatMap String.toList ++
        pointTexts (request.outputs.map BlindedMessage.blindedSecret) := by
  simp [SwapRequest.sigAllMsgToSign, pointTexts, List.flatMap_map]

theorem MeltRequest.toList_sigAllMsg (request : MeltRequest) :
    request.sigAllMsgToSign.toList =
      (request.inputs.map Proof.secret).flatMap String.toList ++
        (pointTexts ((request.outputs.getD []).map BlindedMessage.blindedSecret) ++
          request.quote.toText.toList) := by
  simp [MeltRequest.sigAllMsgToSign, pointTexts, List.flatMap_map]

/-- A UUID has one length and starts with a digit. -/
theorem uuid_toText (value : Uuid) : (QuoteId.uuid value).toText.toList.length = 36 ∧
    ¬ StartsWith (fun c => c = '[') (QuoteId.uuid value).toText.toList := by
  have hlen : (hexDigits 32 value).toList.length = 32 := length_hexDigits 32 value
  have htext : (QuoteId.uuid value).toText.toList =
      (hexDigits 32 value).toList.take 8 ++ '-' :: ((hexDigits 32 value).toList.drop 8).take 4 ++
        '-' :: ((hexDigits 32 value).toList.drop 12).take 4 ++
          '-' :: ((hexDigits 32 value).toList.drop 16).take 4 ++
            '-' :: (hexDigits 32 value).toList.drop 20 := by
    simp [QuoteId.toText]
  constructor
  · rw [htext]
    simp [hlen]
  · rintro ⟨c, tail, hc, rfl⟩
    have hdigit : ∀ c ∈ (hexDigits 32 value).toList, c ≠ '[' := by
      intro c hc
      rw [toList_hexDigits] at hc
      obtain ⟨i, -, rfl⟩ := List.mem_map.mp hc
      have hd : value / 16 ^ i % 16 < 16 := Nat.mod_lt _ (by decide)
      intro hbracket
      have hval := hexVal_digitChar hd
      rw [hbracket] at hval
      exact absurd hval (by simp [hexVal])
    have hhead : ((hexDigits 32 value).toList.take 8).head? = some '[' := by
      have hhead' := congrArg List.head? (htext.symm.trans hc)
      rw [List.head?_cons] at hhead'
      cases htake : (hexDigits 32 value).toList.take 8 with
      | nil =>
          have hzero := congrArg List.length htake
          rw [List.length_take, hlen] at hzero
          exact absurd hzero (by decide)
      | cons d rest =>
          rw [htake] at hhead'
          simpa using hhead'
    exact hdigit '[' (List.mem_of_mem_take (List.mem_of_mem_head? hhead)) rfl

end Message

/-- The parts of a swap that its message determines. -/
def SwapRequest.signedParts (request : SwapRequest) : List String × List PublicKey :=
  (request.inputs.map Proof.secret, request.outputs.map BlindedMessage.blindedSecret)

/-- The parts of a melt that its message determines. -/
def MeltRequest.signedParts (request : MeltRequest) : List String × List PublicKey × String :=
  (request.inputs.map Proof.secret,
    (request.outputs.getD []).map BlindedMessage.blindedSecret, request.quote.toText)

/-- Where the input secrets delimit themselves, as the texts of NUT-10 secrets do, two swaps
have the same message exactly when they have the same secrets and the same points, and two melts
with quote identifiers of one length, such as UUIDs, exactly when these agree as well. -/
theorem sigAllMsg_eq_iff :
    Bracketed nut10Texts ∧
    (∀ value, (QuoteId.uuid value).toText.toList.length = 36 ∧
      ¬ StartsWith (fun c => c = '[') (QuoteId.uuid value).toText.toList) ∧
    ∀ S : Set String, Bracketed S →
      (∀ request request' : SwapRequest,
        (∀ proof ∈ request.inputs, proof.secret ∈ S) →
        (∀ proof ∈ request'.inputs, proof.secret ∈ S) →
          (request.sigAllMsgToSign = request'.sigAllMsgToSign ↔
            request.signedParts = request'.signedParts)) ∧
      (∀ request request' : MeltRequest,
        (∀ proof ∈ request.inputs, proof.secret ∈ S) →
        (∀ proof ∈ request'.inputs, proof.secret ∈ S) →
        ¬ StartsWith (fun c => c = '[') request.quote.toText.toList →
        ¬ StartsWith (fun c => c = '[') request'.quote.toText.toList →
        request.quote.toText.toList.length = request'.quote.toText.toList.length →
          (request.sigAllMsgToSign = request'.sigAllMsgToSign ↔
            request.signedParts = request'.signedParts)) := by
  refine ⟨nut10Texts_bracketed, uuid_toText, fun S hS => ⟨?_, ?_⟩⟩
  · intro request request' h h'
    rw [← String.toList_inj, request.toList_sigAllMsg, request'.toList_sigAllMsg]
    simp only [SwapRequest.signedParts, Prod.mk.injEq]
    constructor
    · intro heq
      have hnil : ¬ StartsWith (fun c => c = '[') ([] : List Char) := not_startsWith_nil
      have hr := not_bracket_pointTexts (request.outputs.map BlindedMessage.blindedSecret) hnil
      have hr' := not_bracket_pointTexts (request'.outputs.map BlindedMessage.blindedSecret) hnil
      rw [List.append_nil] at hr hr'
      obtain ⟨hsecrets, hpoints⟩ := hS.join_append (by simpa using h) (by simpa using h') hr hr' heq
      exact ⟨hsecrets, pointTexts_injective hpoints⟩
    · rintro ⟨hsecrets, hpoints⟩
      rw [hsecrets, hpoints]
  · intro request request' h h' hq hq' hlen
    rw [← String.toList_inj, request.toList_sigAllMsg, request'.toList_sigAllMsg]
    simp only [MeltRequest.signedParts, Prod.mk.injEq]
    constructor
    · intro heq
      obtain ⟨hsecrets, hrest⟩ := hS.join_append (by simpa using h) (by simpa using h')
        (not_bracket_pointTexts _ hq) (not_bracket_pointTexts _ hq') heq
      -- identifiers of one length leave points of one length
      have htotal := congrArg List.length hrest
      rw [List.length_append, List.length_append, hlen] at htotal
      obtain ⟨hpoints, hquote⟩ := List.append_inj hrest (Nat.add_right_cancel htotal)
      exact ⟨hsecrets, pointTexts_injective hpoints, String.toList_inj.mp hquote⟩
    · rintro ⟨hsecrets, hpoints, hquote⟩
      rw [hsecrets, hpoints, hquote]

/-! ## What the message leaves out -/

/-- A swap of one secret for one output of the given amount. -/
def amountSwap (amount : Amount) : SwapRequest :=
  ⟨[⟨Amount.one, .v1 0, Nut10Secret.toText ⟨.p2pk, ⟨"5d11913ee0f92fefdc82a6764fd2457a",
      "026562efcfadc8e86d44da6a8adf80633d974302e62c850774db1fb36ff4cc7198",
      some [["sigflag", "SIG_ALL"]]⟩⟩, ⟨false, 0⟩, none⟩],
    [⟨amount, .v1 0, ⟨false, 1⟩⟩]⟩

/-- Two swaps that differ in the amount of an output have one message, and so do two swaps that
split one text into secrets differently. -/
theorem sigAllMsg_omits :
    ((amountSwap 1).outputs.map BlindedMessage.amount ≠
        (amountSwap 64).outputs.map BlindedMessage.amount ∧
      (amountSwap 1).sigAllMsgToSign = (amountSwap 64).sigAllMsgToSign) ∧
    (∃ request request' : SwapRequest,
      request.inputs.map Proof.secret = ["ab", "c"] ∧
      request'.inputs.map Proof.secret = ["a", "bc"] ∧ request.outputs = request'.outputs ∧
      request.sigAllMsgToSign = request'.sigAllMsgToSign) := by
  refine ⟨⟨by decide, rfl⟩, ?_⟩
  let proof (text : String) : Proof := ⟨Amount.one, .v1 0, text, ⟨false, 0⟩, none⟩
  exact ⟨⟨[proof "ab", proof "c"], []⟩, ⟨[proof "a", proof "bc"], []⟩, rfl, rfl, rfl, by decide⟩

end Cdk
