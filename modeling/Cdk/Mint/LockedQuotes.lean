import Cdk.Mint.IssuanceTotal
import Cdk.Mint.QuoteLedger
import Cdk.Mint.StatementsKept
import Cdk.Nuts.IdCodecs
import Cdk.Nuts.SigAllMessage

/-!
# Locked mint quotes

A mint quote with a key is locked: a request for its signatures is signed with
that key. The signed text is the identifier of the quote and then the points of
the outputs, one behind the other. The identifiers of this mint have one length,
and the texts of the points have one, so the text tells the quote and the points,
and not the amounts.
-/

namespace Cdk

open Lib

/-! ## The signed text -/

section Message

theorem utf8_injective : Function.Injective utf8 := by
  intro a b h
  exact String.toByteArray_inj.mp (ByteArray.ext (Array.toList_inj.mp h))

/-- The text of a point has 66 bytes. -/
theorem length_utf8_toHex (k : PublicKey) : (utf8 k.toHex).length = 66 := by
  have hdigits : (utf8 (hexDigits 64 k.x.toNat)).length = 64 := by
    rw [utf8_hexDigits 32, length_hexEncodeBytes, length_bytesOf]
  rw [PublicKey.toHex, utf8_append, List.length_append, hdigits]
  cases k.odd <;> rfl

theorem utf8_toHex_delimited : Delimited fun k : PublicKey => utf8 k.toHex :=
  .of_length (fun _ _ h => toHex_injective (utf8_injective h)) length_utf8_toHex

/-- The identifiers of this mint have 36 bytes. -/
theorem length_utf8_uuid (v : Uuid) : (utf8 (QuoteId.uuid v).toText).length = 36 := by
  have hascii : ∀ d : Fin 16, (Nat.digitChar d).toNat < 128 := by decide
  have hdigits : ∀ c ∈ (hexDigits 32 v).toList, c.toNat < 128 := by
    intro c hc
    rw [toList_hexDigits] at hc
    obtain ⟨i, -, rfl⟩ := List.mem_map.mp hc
    exact hascii ⟨v / 16 ^ i % 16, Nat.mod_lt _ (by decide)⟩
  rw [QuoteId.toText, utf8_ofList]
  · simp
  · intro c hc
    simp only [List.mem_append, List.mem_cons, or_assoc] at hc
    rcases hc with hc | rfl | hc | rfl | hc | rfl | hc | rfl | hc
    · exact hdigits c (List.mem_of_mem_take hc)
    · decide
    · exact hdigits c (List.mem_of_mem_drop (List.mem_of_mem_take hc))
    · decide
    · exact hdigits c (List.mem_of_mem_drop (List.mem_of_mem_take hc))
    · decide
    · exact hdigits c (List.mem_of_mem_drop (List.mem_of_mem_take hc))
    · decide
    · exact hdigits c (List.mem_of_mem_drop hc)

/-- The points that a request asks signatures for. -/
def MintRequest.points (request : MintRequest) : List PublicKey :=
  request.outputs.map BlindedMessage.blindedSecret

theorem MintRequest.msgToSign_eq (request : MintRequest) :
    request.msgToSign =
      utf8 request.quote.toText ++ request.points.flatMap fun k => utf8 k.toHex := by
  rw [msgToSign, points, List.flatMap_map]

/-- The text of a request for a quote of this mint tells the quote and the points, among all
requests whose identifier is shorter than an identifier and a point. -/
theorem MintRequest.msgToSign_eq_iff {request signed : MintRequest} {v : Uuid}
    (hid : request.quote = .uuid v) (hshort : (utf8 signed.quote.toText).length < 102) :
    signed.msgToSign = request.msgToSign ↔
      signed.quote.toText = request.quote.toText ∧ signed.points = request.points := by
  constructor
  · intro h
    have hpoints : ∀ points : List PublicKey,
        (points.flatMap fun k => utf8 k.toHex).length = points.length * 66 := by
      intro points
      simp [List.length_flatMap, length_utf8_toHex]
    have huuid := length_utf8_uuid v
    rw [msgToSign_eq, msgToSign_eq, hid] at h
    -- The lengths agree up to multiples of 66, and there is one below 102.
    have hlength := congrArg List.length h
    rw [List.length_append, List.length_append, hpoints, hpoints, huuid] at hlength
    obtain ⟨hquote, htexts⟩ := List.append_inj h (by omega)
    rw [hid]
    refine ⟨utf8_injective hquote, ?_⟩
    have hstart : ∀ k : PublicKey, StartsWith (fun _ => True) (utf8 k.toHex) := by
      intro k
      obtain ⟨c, tail, hc⟩ := List.exists_cons_of_length_eq_add_one (length_utf8_toHex k)
      exact ⟨c, tail, hc, trivial⟩
    exact (utf8_toHex_delimited.flatMap hstart not_startsWith_nil not_startsWith_nil
      (congrArg (· ++ []) htexts)).1
  · rintro ⟨hquote, hpoints⟩
    rw [msgToSign_eq, msgToSign_eq, hquote, hpoints]

/-- From 102 bytes on the text does not tell them: the first point may be taken for the end of
the identifier. -/
theorem MintRequest.msgToSign_shift (request : MintRequest) (output : BlindedMessage) :
    MintRequest.msgToSign
        { request with quote := .base64 (request.quote.toText ++ output.blindedSecret.toHex) } =
      MintRequest.msgToSign { request with outputs := output :: request.outputs } := by
  simp [msgToSign_eq, points, QuoteId.toText, utf8_append]

end Message

/-! ## What is recorded for mint quotes -/

/-- An output of a request for the signatures of a mint quote. -/
def SignatureRow.minted (r : SignatureRow) : Bool := r.operation.any fun o => o.kind = .mint

/-- The mint quotes keep their keys, and no output is recorded for one of them. -/
structure Db.LocksKept (db db' : Db) : Prop where
  quotes : ∀ q ∈ db.mintQuotes.rows, ∃ q' ∈ db'.mintQuotes.rows, q'.id = q.id ∧
    q'.pubkey = q.pubkey
  rows : ∀ r' ∈ db'.blindSignatures.rows, r'.minted = true → ∃ r ∈ db.blindSignatures.rows,
    r.minted = true ∧ r.blindedMessage = r'.blindedMessage ∧ r.quoteId = r'.quoteId

namespace Db.LocksKept

variable {db db' db'' : Db}

theorem of_origin (hquotes : db'.mintQuotes = db.mintQuotes)
    (h : ∀ r ∈ db'.blindSignatures.rows, r ∈ db.blindSignatures.rows) : LocksKept db db' where
  quotes q hq := ⟨q, hquotes ▸ hq, rfl, rfl⟩
  rows r hr hminted := ⟨r, h r hr, hminted, rfl, rfl⟩

theorem refl (db : Db) : LocksKept db db := of_origin rfl fun _ hr => hr

theorem trans (h : LocksKept db db') (h' : LocksKept db' db'') : LocksKept db db'' where
  quotes q hq := by
    obtain ⟨q', hq', hid, hlock⟩ := h.quotes q hq
    obtain ⟨q'', hq'', hid', hlock'⟩ := h'.quotes q' hq'
    exact ⟨q'', hq'', hid'.trans hid, hlock'.trans hlock⟩
  rows r'' hr'' hminted'' := by
    obtain ⟨r', hr', hminted', hpoint', hquote'⟩ := h'.rows r'' hr'' hminted''
    obtain ⟨r, hr, hminted, hpoint, hquote⟩ := h.rows r' hr' hminted'
    exact ⟨r, hr, hminted, hpoint.trans hpoint', hquote.trans hquote'⟩

instance : IsPreorder Db LocksKept where
  refl := refl
  trans _ _ _ := trans

/-- Quotes are added or change, but neither their names nor their keys. -/
theorem of_quotes (hquotes : ∀ q ∈ db.mintQuotes.rows, ∃ q' ∈ db'.mintQuotes.rows, q'.id = q.id ∧
      q'.pubkey = q.pubkey) (hsignatures : db'.blindSignatures = db.blindSignatures) :
    LocksKept db db' where
  quotes := hquotes
  rows r hr hminted := ⟨r, hsignatures ▸ hr, hminted, rfl, rfl⟩

/-- Rows are signed, or added without an operation. -/
theorem of_signed {messages : List PublicKey} {signatures : List BlindSignature}
    {quoteId : Option QuoteId} {u : Unit}
    (hadd : addBlindSignatures messages signatures quoteId db = .ok (u, db')) :
    LocksKept db db' := by
  have hrows := addBlindSignatures_rows hadd
  obtain ⟨t, rfl⟩ := addBlindSignatures_frame hadd
  refine ⟨fun q hq => ⟨q, hq, rfl, rfl⟩, fun r hr hminted => ?_⟩
  rcases hrows.origin r hr with hr | ⟨-, -, ⟨-, hop⟩ | ⟨r₀, hr₀, -, hpoint, hquote, hop⟩⟩
  · exact ⟨r, hr, hminted, rfl, rfl⟩
  · simp [SignatureRow.minted, hop] at hminted
  · refine ⟨r₀, hr₀, ?_, hpoint, hquote⟩
    rwa [SignatureRow.minted, hop]

theorem withoutMeltRequest (quoteId : QuoteId) (db : Db) :
    LocksKept db (Db.withoutMeltRequest quoteId db) :=
  of_origin rfl fun _ hr => (Table.mem_delete.mp hr).1

/-- Only the requests for the signatures of mint quotes record outputs for them. -/
theorem keptBy : KeptBy LocksKept where
  addProofs env proofs quoteId operation db u db' h := by
    obtain ⟨rows, t, -, -, rfl⟩ := addProofs_ok h
    exact of_origin rfl fun _ hr => hr
  updateProofsStates ys new db original db' h := by
    obtain ⟨-, -, rfl⟩ := updateProofsStates_ok h
    exact of_origin rfl fun _ hr => hr
  removeProofs ys db u db' h := by
    obtain ⟨-, rfl⟩ := removeProofs_ok h
    exact of_origin rfl fun _ hr => hr
  addBlindedMessages quoteId messages operation hkind db u db' h := by
    obtain ⟨t, ht, rfl⟩ := addBlindedMessages_ok h
    refine ⟨fun q hq => ⟨q, hq, rfl, rfl⟩, fun r hr hminted => ?_⟩
    rw [Table.insertAll?_rows ht, List.mem_append] at hr
    rcases hr with hr | hr
    · exact ⟨r, hr, hminted, rfl, rfl⟩
    · obtain ⟨m, -, rfl⟩ := List.mem_map.mp hr
      simp [SignatureRow.minted, hkind] at hminted
  deleteBlindedMessages secrets db u db' h := by
    rw [deleteBlindedMessages_ok.mp h]
    exact of_origin rfl fun _ hr => (Table.mem_delete.mp hr).1
  addBlindSignatures messages signatures quoteId db u db' h := of_signed h
  incrementMintQuoteAmountPaid quoteId amount paymentId db paid db' h := by
    obtain ⟨t, -, -, rfl⟩ := incrementMintQuoteAmountPaid_ok h
    refine of_quotes (fun q hq => ⟨_, List.mem_map_of_mem hq, setPaid_id _ _ _, ?_⟩) rfl
    unfold setPaid
    split <;> rfl
  addMintQuote quote db u db' h := by
    obtain ⟨t, q, -, -, -, -, hrows, rfl⟩ := addMintQuote_ok h
    refine of_quotes (fun q' hq' => ⟨q', ?_, rfl, rfl⟩) rfl
    rw [hrows]
    exact List.mem_append_left _ hq'
  addMeltQuote quote db u db' h := by
    obtain ⟨t, -, rfl⟩ := addMeltQuote_ok h
    exact of_origin rfl fun _ hr => hr
  addMeltRequest quoteId inputsAmount inputsFee db u db' h := by
    obtain ⟨t, -, -, rfl⟩ := addMeltRequest_ok h
    exact of_origin rfl fun _ hr => hr
  updateMeltQuoteState quoteId state db result db' h := by
    obtain ⟨q, -, -, -, -, rfl⟩ := updateMeltQuoteState_ok h
    have hstate : LocksKept db (withMeltState quoteId state db) := of_origin rfl fun _ hr => hr
    split
    · exact hstate.trans (withoutMeltRequest quoteId _)
    · exact hstate
  updateMeltQuoteRequestLookupId quoteId lookup db u db' h := by
    obtain ⟨-, hframe⟩ := updateMeltQuoteRequestLookupId_ok h
    rw [hframe]
    exact of_origin rfl fun _ hr => hr
  withoutMeltRequest := withoutMeltRequest
  addSaga saga db u db' h := by
    obtain ⟨t, -, -, rfl⟩ := addSaga_ok h
    exact of_origin rfl fun _ hr => hr
  deleteSagaUnless keep operationId db := by
    obtain ⟨t, ht⟩ := deleteSagaUnless_frame keep operationId db
    rw [ht]
    exact of_origin rfl fun _ hr => hr

end Db.LocksKept

/-! ## Requests for signatures -/

section Requests

variable {env : Env} {keysets : Keysets} {db db' : Db} {request : MintRequest}
  {pubkey : PublicKey}

/-- A locked quote is issued for a request that is signed with its key. -/
theorem verifySignature_of_checkMintable {quote : MintQuote} {amount : Amount}
    (hlock : quote.pubkey = some pubkey)
    (h : checkMintable env request quote = .ok amount) :
    request.verifySignature env pubkey = .ok () := by
  simp only [checkMintable, hlock, Outcome.bind_eq_ok, Outcome.mapErr_eq_ok] at h
  obtain ⟨_, -, _, -, _, -, _, -, _, hverify, -⟩ := h
  exact hverify

/-- What a request for a mint quote records. -/
structure Requested (env : Env) (request : MintRequest) (quote : MintQuote) (db db' : Db) :
    Prop where
  found : quote ∈ db.mintQuotes.rows ∧ quote.id = request.quote
  signed : ∀ pubkey, quote.pubkey = some pubkey → request.verifySignature env pubkey = .ok ()
  quotes : ∀ q ∈ db.mintQuotes.rows, ∃ q' ∈ db'.mintQuotes.rows, q'.id = q.id ∧
    q'.pubkey = q.pubkey
  rows : ∀ r' ∈ db'.blindSignatures.rows, r'.minted = true →
    (∃ r ∈ db.blindSignatures.rows, r.minted = true ∧ r.blindedMessage = r'.blindedMessage ∧
      r.quoteId = r'.quoteId) ∨
    r'.quoteId = some request.quote ∧ r'.blindedMessage ∈ request.points

theorem issueSignatures_requested {operationId : Uuid}
    {signatures : List BlindSignature} {u : Unit}
    (h : issueSignatures env keysets operationId request signatures db = .ok (u, db')) :
    ∃ quote, Requested env request quote db db' := by
  simp only [issueSignatures, Tx.bind_ok, Tx.read_ok, Tx.lift_ok, Tx.ensure_ok, Tx.mapErr_ok,
    Tx.pure_ok, Outcome.ofOption_eq_ok, Outcome.expect_eq_ok] at h
  obtain ⟨found, _, ⟨rfl, rfl⟩, quote, _, ⟨hfind, rfl⟩, _, _, ⟨hcheck, rfl⟩, outputs, _, hout, _, _,
    ⟨-, rfl⟩, _, _, ⟨-, rfl⟩, _, _, ⟨-, rfl⟩, _, reserved, hmsg, _, signed, hadd, total, _,
    ⟨htotal, rfl⟩, issued, _, hinc, -, rfl⟩ := h
  rw [(verifyOutputs_ok hout).1] at hmsg
  obtain ⟨b, hb, rfl⟩ := Db.addBlindedMessages_ok hmsg
  have hadd' := hadd
  obtain ⟨t, rfl⟩ := Db.addBlindSignatures_frame hadd
  obtain ⟨_, -, -, -, -, rfl⟩ := Db.incrementMintQuoteAmountIssued_ok hinc
  refine ⟨quote, Table.find?_eq_some.mp hfind,
    fun pubkey hlock => verifySignature_of_checkMintable hlock hcheck, ?_, ?_⟩
  · intro q hq
    refine ⟨_, List.mem_map_of_mem hq, Db.setIssued_id _ _ _, ?_⟩
    unfold Db.setIssued
    split <;> rfl
  · intro r' hr' hminted'
    obtain ⟨r, hr, hminted, hpoint, hquote⟩ := (Db.LocksKept.of_signed hadd').rows r' hr' hminted'
    rw [← hpoint, ← hquote]
    rw [show r ∈ b.rows ↔ _ from by rw [Table.insertAll?_rows hb, List.mem_append]] at hr
    rcases hr with hr | hr
    · exact .inl ⟨r, hr, hminted, rfl, rfl⟩
    · obtain ⟨m, hm, rfl⟩ := List.mem_map.mp hr
      exact .inr ⟨rfl, List.mem_map_of_mem hm⟩

end Requests

/-! ## Runs -/

/-- Each output that is recorded for a mint quote was asked for by one of these requests, and the
key of the quote, if it has one, signed that request. -/
def Authorized (env : Env) (asked : List MintRequest) (db : Db) : Prop :=
  ∀ r ∈ db.blindSignatures.rows, r.minted = true → ∃ request ∈ asked,
    ∃ quote ∈ db.mintQuotes.rows, quote.id = request.quote ∧ r.quoteId = some request.quote ∧
      r.blindedMessage ∈ request.points ∧
      ∀ pubkey, quote.pubkey = some pubkey → request.verifySignature env pubkey = .ok ()

/-- The requests for the signatures of mint quotes among the actions. -/
def askedIn (actions : List Action) : List MintRequest :=
  actions.filterMap fun
    | .issue _ request => some request
    | _ => none

section Runs

variable {env : Env} {backends : Backends} {w : World} {db db' : Db} {asked : List MintRequest}

/-- The quotes keep their keys, and a recorded output is an old one or has a request of its own. -/
theorem Authorized.of_rows (h : Authorized env asked db)
    (hquotes : ∀ q ∈ db.mintQuotes.rows, ∃ q' ∈ db'.mintQuotes.rows,
      q'.id = q.id ∧ q'.pubkey = q.pubkey)
    (hrows : ∀ r' ∈ db'.blindSignatures.rows, r'.minted = true →
      (∃ r ∈ db.blindSignatures.rows, r.minted = true ∧ r.blindedMessage = r'.blindedMessage ∧
        r.quoteId = r'.quoteId) ∨
      ∃ request ∈ asked, ∃ quote ∈ db.mintQuotes.rows, quote.id = request.quote ∧
        r'.quoteId = some request.quote ∧ r'.blindedMessage ∈ request.points ∧
        ∀ pubkey, quote.pubkey = some pubkey → request.verifySignature env pubkey = .ok ()) :
    Authorized env asked db' := by
  intro r' hr' hminted'
  have hold : ∃ request ∈ asked, ∃ quote ∈ db.mintQuotes.rows, quote.id = request.quote ∧
      r'.quoteId = some request.quote ∧ r'.blindedMessage ∈ request.points ∧
      ∀ pubkey, quote.pubkey = some pubkey → request.verifySignature env pubkey = .ok () := by
    rcases hrows r' hr' hminted' with ⟨r, hr, hminted, hpoint, hquote⟩ | hnew
    · rw [← hpoint, ← hquote]
      exact h r hr hminted
    · exact hnew
  obtain ⟨request, hasked, quote, hmem, hid, hrow, hin, hsigned⟩ := hold
  obtain ⟨quote', hmem', hid', hlock⟩ := hquotes quote hmem
  exact ⟨request, hasked, quote', hmem', hid'.trans hid, hrow, hin,
    fun pubkey hpubkey => hsigned pubkey (hlock ▸ hpubkey)⟩

theorem Authorized.of_kept (h : Authorized env asked db) (hkept : db.LocksKept db') :
    Authorized env asked db' :=
  h.of_rows hkept.quotes fun r' hr' hminted' => Or.inl (hkept.rows r' hr' hminted')

theorem Authorized.of_requested {request : MintRequest} {quote : MintQuote}
    (h : Authorized env asked db) (hasked : request ∈ asked)
    (hrequested : Requested env request quote db db') : Authorized env asked db' := by
  refine h.of_rows hrequested.quotes fun r' hr' hminted' => ?_
  obtain ⟨hmem, hid⟩ := hrequested.found
  rcases hrequested.rows r' hr' hminted' with hold | ⟨hquote, hpoint⟩
  · exact Or.inl hold
  · exact Or.inr ⟨request, hasked, quote, hmem, hid, hquote, hpoint, hrequested.signed⟩

theorem World.issue_authorized {signing : Keysets} {request : MintRequest}
    (h : Authorized env asked w.db) (hasked : request ∈ asked) :
    Authorized env asked (w.issue env signing request).db := by
  change Authorized env asked
    (Tx.commit (signAndIssue env w.keysets signing w.nextId request) w.db).2
  rcases Tx.commit_cases (signAndIssue env w.keysets signing w.nextId request) w.db with
    ⟨u, db', hok, hcommit⟩ | ⟨-, hcommit, -⟩
  · rw [hcommit]
    simp only [signAndIssue, Tx.bind_ok, Tx.lift_ok, Tx.pure_ok] at hok
    obtain ⟨signatures, _, ⟨-, rfl⟩, _, _, hissue, -, rfl⟩ := hok
    obtain ⟨quote, hrequested⟩ := issueSignatures_requested hissue
    exact h.of_requested hasked hrequested
  · rwa [hcommit]

theorem World.step_authorized (a : Action) (h : Authorized env asked w.db)
    (hasked : ∀ signing request, a = .issue signing request → request ∈ asked) :
    Authorized env asked (w.step env backends a).db := by
  by_cases hissue : ∃ signing request, a = .issue signing request
  · obtain ⟨signing, request, rfl⟩ := hissue
    exact w.issue_authorized h (hasked signing request rfl)
  · refine h.of_kept (w.step_keeps env backends Db.LocksKept.keptBy a ?_)
    intro signing request ha
    exact absurd ⟨signing, request, ha⟩ hissue

theorem mem_askedIn {actions : List Action} {request : MintRequest} :
    request ∈ askedIn actions ↔ ∃ signing, Action.issue signing request ∈ actions := by
  rw [askedIn, List.mem_filterMap]
  constructor
  · rintro ⟨a, ha, hrequest⟩
    cases a with
    | issue signing _ => exact ⟨signing, Option.some.inj hrequest ▸ ha⟩
    | _ => cases hrequest
  · rintro ⟨signing, ha⟩
    exact ⟨_, ha, rfl⟩

theorem World.run_authorized (actions : List Action) (h : Authorized env asked w.db)
    (hasked : ∀ signing request, Action.issue signing request ∈ actions → request ∈ asked) :
    Authorized env asked (run (World.step env backends) w actions).db := by
  induction actions generalizing w with
  | nil => exact h
  | cons a rest ih =>
      refine ih (w.step_authorized a h ?_) ?_
      · rintro signing request rfl
        exact hasked signing request List.mem_cons_self
      · intro signing request hmem
        exact hasked signing request (List.mem_cons_of_mem a hmem)

end Runs

/-- In every run, each output that is recorded for a mint quote was asked for by a request that
was made for the quote. Where the quote is locked, its key has signed this request, and any
request of the usual size with the same signed text is for the same quote and the same points. -/
theorem locked_quote_authorized (env : Env) (backends : Backends) (keysets : Keysets)
    (actions : List Action) {r : SignatureRow}
    (hr : r ∈ (World.reached env backends keysets actions).db.blindSignatures.rows)
    (hminted : r.minted = true) :
    ∃ quote ∈ (World.reached env backends keysets actions).db.mintQuotes.rows,
      ∃ signing request, Action.issue signing request ∈ actions ∧ request.quote = quote.id ∧
        r.quoteId = some quote.id ∧ r.blindedMessage ∈ request.points ∧
        ∀ pubkey, quote.pubkey = some pubkey →
          request.verifySignature env pubkey = .ok () ∧
          ∀ signed : MintRequest, (utf8 signed.quote.toText).length < 102 →
            (signed.msgToSign = request.msgToSign ↔
              signed.quote.toText = quote.id.toText ∧ signed.points = request.points) := by
  have hauthorized : Authorized env (askedIn actions)
      (World.reached env backends keysets actions).db := by
    refine World.run_authorized actions (fun r hr => ?_) fun signing request hmem =>
      mem_askedIn.mpr ⟨signing, hmem⟩
    cases hr
  obtain ⟨request, hasked, quote, hmem, hid, hrow, hpoint, hsigned⟩ := hauthorized r hr hminted
  obtain ⟨signing, hissue⟩ := mem_askedIn.mp hasked
  obtain ⟨v, -, huuid⟩ := (quotesInv_run keysets actions).ids.mint quote hmem
  refine ⟨quote, hmem, signing, request, hissue, hid.symm, hid ▸ hrow, hpoint, ?_⟩
  intro pubkey hlock
  refine ⟨hsigned pubkey hlock, fun signed hshort => ?_⟩
  rw [hid]
  exact MintRequest.msgToSign_eq_iff (hid.symm.trans huuid) hshort

/-- An offer with a key is paid eight and issued for one output. -/
def lockedActions : List Action :=
  [.createMintQuote offerQuote, .notifyPayment ⟨.label "o1", 8, .sat, "p1"⟩,
    .issue [sampleKeyset] (offerRequest [sampleMessage 8 5])]

theorem locked_quote_authorized_sample :
    ∃ quote ∈ (World.reached signedEnv (fun _ _ => true) [sampleKeyset]
        lockedActions).db.mintQuotes.rows, quote.pubkey = some ⟨false, 1⟩ ∧
      ∃ signing request, Action.issue signing request ∈ lockedActions ∧
        request.quote = quote.id ∧ (⟨false, 5⟩ : PublicKey) ∈ request.points ∧
        request.verifySignature signedEnv ⟨false, 1⟩ = .ok () := by
  have hrow : ∃ r ∈ (World.reached signedEnv (fun _ _ => true) [sampleKeyset]
      lockedActions).db.blindSignatures.rows,
      r.minted = true ∧ r.blindedMessage = ⟨false, 5⟩ := by
    decide +kernel
  have hlock : ∀ q ∈ (World.reached signedEnv (fun _ _ => true) [sampleKeyset]
      lockedActions).db.mintQuotes.rows, q.pubkey = some ⟨false, 1⟩ := by
    decide +kernel
  obtain ⟨r, hr, hminted, hpoint⟩ := hrow
  obtain ⟨quote, hquote, signing, request, hissue, hid, -, hin, hsigned⟩ :=
    locked_quote_authorized signedEnv (fun _ _ => true) [sampleKeyset] lockedActions hr hminted
  rw [hpoint] at hin
  exact ⟨quote, hquote, hlock quote hquote, signing, request, hissue, hid, hin,
    (hsigned ⟨false, 1⟩ (hlock quote hquote)).1⟩

end Cdk
