import Cdk.Lib.Encoded
import Cdk.Mint.ChangeConservation
import Cdk.Mint.Transactions

/-!
# Requests that end

A request for signatures is checked, and then written in one transaction. The
only call on the way that can panic is the one that takes the unit of the
outputs: a list without outputs has none, and its amount of zero is accepted for
an offer.
-/

namespace Lib

namespace Tx

variable {σ ε α β γ : Type}

theorem bind_ne_panic {x : Tx σ ε α} {f : α → Tx σ ε β} {s : σ} :
    (x >>= f) s ≠ .panic ↔ x s ≠ .panic ∧ ∀ a s', x s = .ok (a, s') → f a s' ≠ .panic := by
  change (x s >>= fun r => f r.1 r.2) ≠ .panic ↔ _
  rw [Outcome.bind_ne_panic, Prod.forall]

theorem commit_ne_panic {x : Tx σ ε α} {s : σ} : (commit x s).1 ≠ .panic ↔ x s ≠ .panic := by
  unfold commit
  cases x s <;> simp

theorem commit_of_err {x : Tx σ ε α} {s : σ} {e : ε} (h : (commit x s).1 = .err e) :
    (commit x s).2 = s := by
  rcases commit_cases x s with ⟨a, s', -, hc⟩ | ⟨-, hc, -⟩
  · rw [hc] at h
    cases h
  · exact hc

namespace Returns

theorem pure (a : α) : Returns (Pure.pure a : Tx σ ε α) := fun _ => nofun

theorem lift {x : Outcome ε α} (h : x ≠ .panic) : Returns (Tx.lift x : Tx σ ε α) :=
  fun _ => Outcome.bind_ne_panic.mpr ⟨h, fun _ _ => nofun⟩

theorem foldlM {f : β → γ → Tx σ ε β} (h : ∀ acc x, Returns (f acc x)) (xs : List γ) (acc : β) :
    Returns (xs.foldlM f acc) := by
  induction xs generalizing acc with
  | nil => exact .pure acc
  | cons x xs ih => exact (h acc x).bind ih

end Returns

end Tx

end Lib

namespace Cdk

open Lib

section Total

variable (env : Env) (keysets : Keysets) (answer : StatusAnswer) (operationId : Uuid)
  (request : MintRequest) (db : Db)

/-- A request ends without a panic, and if it returns an error it has issued nothing. -/
structure IssuanceTotal : Prop where
  returns : (processMintRequest env keysets answer operationId request db).1 ≠ .panic
  issued : ∀ e, (processMintRequest env keysets answer operationId request db).1 = .err e →
    ∀ id, ((processMintRequest env keysets answer operationId request db).2.mintQuotes.find? id).map
      MintQuote.amountIssued = (db.mintQuotes.find? id).map MintQuote.amountIssued
  signatures : ∀ e, (processMintRequest env keysets answer operationId request db).1 = .err e →
    (processMintRequest env keysets answer operationId request db).2.blindSignatures =
      db.blindSignatures

/-- A signed request for an offer that has been paid and names no outputs. -/
structure EmptyOffer (quote : MintQuote) : Prop where
  method : quote.paymentMethod = .bolt12
  outputs : request.outputs = []
  paid : quote.amountIssued < quote.amountPaid
  signed : ∃ pubkey, quote.pubkey = some pubkey ∧ request.verifySignature env pubkey = .ok ()

end Total

/-! ## Checks -/

section Checks

variable {env : Env} {request : MintRequest} {quote : MintQuote} {amount : Amount}

/-- A quote that is neither unpaid nor issued has been paid more than was issued. -/
theorem MintQuote.lt_of_state (hunpaid : quote.state ≠ .unpaid) (hissued : quote.state ≠ .issued) :
    quote.amountIssued < quote.amountPaid := by
  unfold MintQuote.state at hunpaid hissued
  split_ifs at hunpaid hissued with hzero hlt
  · exact absurd rfl hunpaid
  · exact hlt
  · exact absurd rfl hissued

theorem MintQuote.state_of_lt (h : quote.amountIssued < quote.amountPaid) : quote.state = .paid := by
  have hne : ¬ (quote.amountPaid = .zero ∧ quote.amountIssued = .zero) := by
    rintro ⟨hpaid, -⟩
    rw [hpaid] at h
    exact Nat.not_lt_zero _ h
  rw [MintQuote.state, if_neg hne, if_pos h]

/-- What was paid beyond what was issued can be minted. -/
theorem MintQuote.amountMintable_of_lt (h : quote.amountIssued < quote.amountPaid) :
    ∃ mintable, quote.amountMintable = .ok mintable ∧ mintable ≠ .zero := by
  have h : quote.amountIssued.toNat < quote.amountPaid.toNat := h
  have hlt := quote.amountPaid.isLt
  let mintable : Amount := ⟨quote.amountPaid.toNat - quote.amountIssued.toNat, by omega⟩
  refine ⟨mintable, ?_, fun hzero => ?_⟩
  · rw [MintQuote.amountMintable, Amount.sub, Outcome.expect_eq_ok, Amount.checkedSub_eq_some]
    exact Nat.sub_add_cancel h.le
  · have : quote.amountPaid.toNat - quote.amountIssued.toNat = 0 := congrArg Amount.toNat hzero
    omega

theorem mintAmount_ne_panic (h : quote.amountIssued < quote.amountPaid) :
    mintAmount quote ≠ .panic := by
  obtain ⟨mintable, hmintable, -⟩ := MintQuote.amountMintable_of_lt h
  unfold mintAmount
  cases quote.paymentMethod with
  | bolt11 => simp [Outcome.bind_ne_panic, hmintable]
  | bolt12 => simp [Outcome.bind_ne_panic, hmintable]
  | custom _ => exact nofun

theorem verifySignature_ne_panic (pubkey : PublicKey) :
    request.verifySignature env pubkey ≠ .panic := by
  simp [MintRequest.verifySignature, Outcome.bind_ne_panic]

/-- The checks of a quote return. -/
theorem checkMintable_ne_panic : checkMintable env request quote ≠ .panic := by
  unfold checkMintable
  refine Outcome.bind_ne_panic.mpr ⟨Outcome.ensure_ne_panic _ _, fun _ hunpaid => ?_⟩
  refine Outcome.bind_ne_panic.mpr ⟨Outcome.ensure_ne_panic _ _, fun _ hissued => ?_⟩
  refine Outcome.bind_ne_panic.mpr ⟨Outcome.ensure_ne_panic _ _, fun _ _ => ?_⟩
  have hpaid := MintQuote.lt_of_state (of_decide_eq_true (Outcome.ensure_eq_ok.mp hunpaid))
    (of_decide_eq_true (Outcome.ensure_eq_ok.mp hissued))
  refine Outcome.bind_ne_panic.mpr ⟨mintAmount_ne_panic hpaid, fun amount _ => ?_⟩
  cases quote.pubkey with
  | none => exact nofun
  | some pubkey =>
      exact Outcome.bind_ne_panic.mpr
        ⟨Outcome.mapErr_ne_panic.mpr (verifySignature_ne_panic pubkey), fun _ _ => nofun⟩

/-- Nothing at all is accepted for an offer only, and there it always is. -/
theorem emptyOffer_iff (houtputs : request.outputs = []) :
    EmptyOffer env request quote ↔
      ∃ mintable, checkMintable env request quote = .ok mintable ∧
        amountAccepted quote .zero mintable = true := by
  simp only [checkMintable, Outcome.bind_eq_ok, Outcome.ensure_eq_ok, decide_eq_true_eq]
  constructor
  · rintro ⟨hmethod, -, hpaid, pubkey, hpubkey, hsigned⟩
    have hstate := MintQuote.state_of_lt hpaid
    obtain ⟨mintable, hmintable, hne⟩ := MintQuote.amountMintable_of_lt hpaid
    refine ⟨mintable, ⟨(), by rw [hstate]; rintro ⟨⟩, (), by rw [hstate]; rintro ⟨⟩, (), ?_,
      mintable, ?_, ?_⟩, ?_⟩
    · rw [hpubkey]
      rintro ⟨-, ⟨⟩⟩
    · simp [mintAmount, hmethod, hmintable, hne, Outcome.ensure]
    · simp [hpubkey, hsigned, Outcome.mapErr]
    · simp only [amountAccepted, hmethod, reduceCtorEq, if_false, decide_eq_true_eq]
      exact Nat.zero_le _
  · rintro ⟨mintable, ⟨_, hunpaid, _, hissued, _, hkey, amount, hamount, hsigned⟩, haccepted⟩
    have hpaid := MintQuote.lt_of_state hunpaid hissued
    obtain ⟨mintable', hmintable, hne⟩ := MintQuote.amountMintable_of_lt hpaid
    have hmethod : quote.paymentMethod = .bolt12 := by
      cases hmethod : quote.paymentMethod with
      | bolt12 => rfl
      | custom name => simp [mintAmount, hmethod] at hamount
      | bolt11 =>
          exfalso
          have hsame : mintable = amount := by
            cases hpubkey : quote.pubkey with
            | none =>
                rw [hpubkey] at hsigned
                exact (Outcome.ok.inj hsigned).symm
            | some pubkey =>
                rw [hpubkey] at hsigned
                obtain ⟨_, -, hsigned⟩ := Outcome.bind_eq_ok.mp hsigned
                exact (Outcome.ok.inj hsigned).symm
          simp only [mintAmount, hmethod, Outcome.bind_eq_ok, hmintable, Outcome.ensure_eq_ok,
            decide_eq_true_eq, Outcome.ok.injEq] at hamount
          obtain ⟨_, -, _, rfl, _, rfl, rfl⟩ := hamount
          simp only [amountAccepted, hmethod, if_true, decide_eq_true_eq] at haccepted
          exact hne (haccepted.trans hsame).symm
    refine ⟨hmethod, houtputs, hpaid, ?_⟩
    cases hpubkey : quote.pubkey with
    | none => exact absurd ⟨hmethod, hpubkey⟩ hkey
    | some pubkey =>
        rw [hpubkey] at hsigned
        obtain ⟨_, hverified, -⟩ := Outcome.bind_eq_ok.mp hsigned
        exact ⟨pubkey, rfl, Outcome.mapErr_eq_ok.mp hverified⟩

end Checks

/-! ## The transactions -/

section Transactions

variable {env : Env} {keysets : Keysets} {operationId : Uuid} {request : MintRequest}
  {signatures : List BlindSignature} {db db' : Db}

theorem returns_addBlindedMessages (quoteId : Option QuoteId) (messages : List BlindedMessage)
    (operation : Operation) : Tx.Returns (Db.addBlindedMessages quoteId messages operation) := by
  refine (Tx.Returns.lift ?_).bind fun _ => .writeOr _ _
  exact Outcome.mapM_ne_panic fun message _ => by simp [Db.messageRow, Outcome.bind_ne_panic]

theorem returns_addBlindSignatures (messages : List PublicKey) (signatures : List BlindSignature)
    (quoteId : Option QuoteId) :
    Tx.Returns (Db.addBlindSignatures messages signatures quoteId) := by
  refine (Tx.Returns.ensure _ _).bind fun _ => Tx.Returns.forM (fun entry => ?_) _
  refine (Tx.Returns.read _).bind fun existing => ?_
  cases existing with
  | none => exact .writeOr _ _
  | some r =>
      dsimp only
      split
      · exact .write _
      · exact .fail _

theorem returns_incrementMintQuoteAmountIssued (quoteId : QuoteId) (amount : Amount) :
    Tx.Returns (Db.incrementMintQuoteAmountIssued quoteId amount) := by
  refine (Tx.Returns.read _).bind fun found => ?_
  refine (Tx.Returns.lift (Outcome.ofOption_ne_panic _ _)).bind fun quote => ?_
  refine (Tx.Returns.lift (Outcome.ofOption_ne_panic _ _)).bind fun issued => ?_
  refine (Tx.Returns.ensure _ _).bind fun _ => (Tx.Returns.ensure _ _).bind fun _ => ?_
  exact (Tx.Returns.write _).bind fun _ => .pure _

theorem returns_verifyOutputs (outputs : List BlindedMessage) :
    Tx.Returns (verifyOutputs keysets outputs) := by
  unfold verifyOutputs
  split
  · exact .pure _
  · refine (Tx.Returns.ensure _ _).bind fun _ => ?_
    refine ((Tx.Returns.read _).mapErr.bind fun _ => .ensure _ _).bind fun _ => ?_
    refine (Tx.Returns.lift ?_).bind fun _ => ?_
    · refine Outcome.bind_ne_panic.mpr ⟨Outcome.mapM_ne_panic fun id _ => ?_, fun units _ => ?_⟩
      · simp [Outcome.bind_ne_panic]
      · unfold singleUnit
        split <;> exact nofun
    · exact (Tx.Returns.lift (Outcome.ofOption_ne_panic _ _)).bind fun _ => .pure _

/-- A list with outputs has a unit. -/
theorem unit_of_verifyOutputs {outputs : List BlindedMessage} {verification : Verification}
    (hne : outputs ≠ []) (h : verifyOutputs keysets outputs db = .ok (verification, db')) :
    ∃ unit, verification.unit = some unit := by
  simp only [verifyOutputs, if_neg hne, Tx.bind_ok, Tx.pure_ok] at h
  obtain ⟨_, _, -, _, _, -, unit, _, -, amount, _, -, rfl, -⟩ := h
  exact ⟨unit, rfl⟩

/-- The transaction panics exactly for a signed request that names no outputs for a paid offer. -/
theorem issueSignatures_ne_panic :
    issueSignatures env keysets operationId request signatures db ≠ .panic ↔
      ∀ quote, db.mintQuotes.find? request.quote = some quote → ¬ EmptyOffer env request quote := by
  have hfound : (Tx.read fun db : Db => db.mintQuotes.find? request.quote :
      MintTx (Option MintQuote)) db = .ok (db.mintQuotes.find? request.quote, db) := rfl
  rw [issueSignatures, Tx.bind_of_ok hfound]
  cases hquote : db.mintQuotes.find? request.quote with
  | none => exact iff_of_true (by rintro ⟨⟩) (by rintro _ ⟨⟩)
  | some quote =>
      simp only [Option.some.injEq, forall_eq']
      rw [Tx.bind_of_ok (Tx.lift_ok.mpr ⟨Outcome.ofOption_some _ quote, rfl⟩)]
      cases hmintable : checkMintable env request quote with
      | panic => exact absurd hmintable checkMintable_ne_panic
      | err e =>
          refine iff_of_true (by rintro ⟨⟩) fun hempty => ?_
          obtain ⟨mintable, hok, -⟩ := (emptyOffer_iff hempty.outputs).mp hempty
          rw [hmintable] at hok
          cases hok
      | ok mintable =>
          rw [Tx.bind_of_ok (Tx.lift_ok.mpr ⟨rfl, rfl⟩)]
          by_cases houtputs : request.outputs = []
          · have hverified : verifyOutputs keysets request.outputs db = .ok (⟨.zero, none⟩, db) := by
              rw [verifyOutputs, if_pos houtputs]
              rfl
            rw [Tx.bind_of_ok hverified, emptyOffer_iff houtputs]
            simp only [hmintable, Outcome.ok.injEq, exists_eq_left']
            cases haccepted : amountAccepted quote .zero mintable with
            | false => exact iff_of_true (by rintro ⟨⟩) (by rintro ⟨⟩)
            | true => exact iff_of_false (fun h => h rfl) fun h => h rfl
          · refine iff_of_true ?_ fun hempty => houtputs hempty.outputs
            rw [Tx.bind_ne_panic, and_iff_right (returns_verifyOutputs _ _)]
            intro verification verified hverified
            obtain ⟨unit, hunit⟩ := unit_of_verifyOutputs houtputs hverified
            refine (Tx.Returns.ensure _ _).bind (fun _ => ?_) verified
            refine (Tx.Returns.lift ?_).bind fun unit => ?_
            · rw [hunit]
              rintro ⟨⟩
            refine (Tx.Returns.ensure _ _).bind fun _ => ?_
            refine (returns_addBlindedMessages _ _ _).mapErr.bind fun _ => ?_
            refine (returns_addBlindSignatures _ _ _).mapErr.bind fun _ => ?_
            refine (Tx.Returns.lift (Outcome.ofOption_ne_panic _ _)).bind fun total => ?_
            exact (returns_incrementMintQuoteAmountIssued _ _).mapErr.bind fun _ => .pure _

/-- With the signatures the same; there are none to make for no outputs. -/
theorem signAndIssue_ne_panic {signing : Keysets} :
    signAndIssue env keysets signing operationId request db ≠ .panic ↔
      ∀ quote, db.mintQuotes.find? request.quote = some quote → ¬ EmptyOffer env request quote := by
  rw [signAndIssue]
  cases hsign : blindSign env signing request.outputs with
  | panic => exact absurd hsign (blindSign_ne_panic _)
  | err e =>
      refine iff_of_true (by rintro ⟨⟩) fun _ _ hempty => ?_
      rw [hempty.outputs] at hsign
      cases hsign
  | ok signatures =>
      rw [Tx.bind_of_ok (Tx.lift_ok.mpr ⟨rfl, rfl⟩), Tx.bind_ne_panic, issueSignatures_ne_panic]
      exact and_iff_left fun _ _ _ => by rintro ⟨⟩

/-! ## The check of the payment -/

theorem toUnit_ne_panic (amount : Amount) (unit target : CurrencyUnit) :
    toUnit amount unit target ≠ .panic := by
  unfold toUnit
  split <;> first | exact Outcome.ofOption_ne_panic _ _ | exact nofun

theorem returns_incrementMintQuoteAmountPaid (quoteId : QuoteId) (amount : Amount)
    (paymentId : String) :
    Tx.Returns (Db.incrementMintQuoteAmountPaid quoteId amount paymentId) := by
  refine (Tx.Returns.ensure _ _).bind fun _ => (Tx.Returns.read _).bind fun _ => ?_
  refine (Tx.Returns.ensure _ _).bind fun _ => (Tx.Returns.read _).bind fun _ => ?_
  refine (Tx.Returns.lift (Outcome.ofOption_ne_panic _ _)).bind fun _ => ?_
  refine (Tx.Returns.ensure _ _).bind fun _ => (Tx.Returns.write _).bind fun _ => ?_
  exact (Tx.Returns.ensure _ _).bind fun _ => (Tx.Returns.writeOr _ _).bind fun _ => .pure _

/-- A check returns if the call of the backend does. -/
theorem returns_checkMintQuotePaid {answer : StatusAnswer} (hanswer : answer ≠ some .panic)
    (quote : MintQuote) : Tx.Returns (checkMintQuotePaid answer quote) := by
  have hcredit (checked : CheckedQuote) (payment : WaitPaymentResponse) :
      Tx.Returns (creditPayment checked payment) := by
    unfold creditPayment
    split
    · exact .pure _
    · refine (Tx.Returns.lift (toUnit_ne_panic _ _ _)).bind fun amount => ?_
      refine (Tx.Returns.lift (Outcome.ofOption_ne_panic _ _)).bind fun paid => ?_
      exact (returns_incrementMintQuoteAmountPaid _ _ _).mapErr.bind fun _ => .pure _
  unfold checkMintQuotePaid
  split
  · exact .pure _
  · cases answer with
    | none => exact fun _ => nofun
    | some status =>
        intro db
        rw [Tx.bind_of_ok (Tx.lift_ok.mpr ⟨Outcome.ofOption_some _ status, rfl⟩)]
        have hstatus : status ≠ .panic := fun h => hanswer (congrArg some h)
        refine (Tx.Returns.lift hstatus).bind (fun payments => ?_) db
        split
        · exact .pure _
        · refine (Tx.Returns.read _).bind fun found => ?_
          refine (Tx.Returns.lift (Outcome.ofOption_ne_panic _ _)).bind fun quote => ?_
          refine (Tx.Returns.read _).bind fun seen => ?_
          split
          · exact .pure _
          · exact (Tx.Returns.foldlM hcredit _ _).bind fun _ => .pure _

/-- What is credited changes no quote but for what has been paid. -/
theorem credits_find? {β : Type} (f : MintQuote → β)
    (hf : ∀ id paid quote, f (Db.setPaid id paid quote) = f quote)
    (h : Relation.ReflTransGen Credited db db') (id : QuoteId) :
    (db'.mintQuotes.find? id).map f = (db.mintQuotes.find? id).map f := by
  induction h with
  | refl => rfl
  | tail _ hstep ih =>
      obtain ⟨quote, amount, paymentId, hcredit⟩ := hstep
      obtain ⟨paid, -, hquotes⟩ := hcredit.quotes
      rw [hquotes, Table.find?_update, Option.map_map, ← ih]
      exact congrArg (Option.map · _) (funext fun q => hf quote.id paid q)

end Transactions

/-- For every request, store and state of the keysets, as long as the call of the backend returns: a
request ends without a panic, and issues nothing with an error, exactly if it is not a signed one
that names no outputs for a paid offer. -/
theorem issuanceTotal_iff {answer : StatusAnswer} (hanswer : answer ≠ some .panic) (env : Env)
    (keysets : Keysets) (operationId : Uuid) (request : MintRequest) (db : Db) :
    IssuanceTotal env keysets answer operationId request db ↔
      ∀ quote, db.mintQuotes.find? request.quote = some quote → ¬ EmptyOffer env request quote := by
  cases hquote : db.mintQuotes.find? request.quote with
  | none =>
      have hrun : processMintRequest env keysets answer operationId request db =
          (.err .unknownQuote, db) := by
        unfold processMintRequest
        rw [hquote]
      refine iff_of_true ⟨?_, fun _ _ _ => ?_, fun _ _ => ?_⟩ (by rintro _ ⟨⟩) <;> rw [hrun]
      rintro ⟨⟩
  | some quote =>
      simp only [Option.some.injEq, forall_eq']
      by_cases hmethod : quote.paymentMethod = .bolt11
      · refine iff_of_true ?_ fun hempty => nomatch hmethod.symm.trans hempty.method
        have hcheck := Tx.commit_ne_panic.mpr (returns_checkMintQuotePaid hanswer quote db)
        rcases Tx.commit_cases (checkMintQuotePaid answer quote) db with
          ⟨u, checked, hok, hcommit⟩ | ⟨-, hsame, hnone⟩
        · have hcredits := checkMintQuotePaid_ok hok
          have hrun : processMintRequest env keysets answer operationId request db =
              Tx.commit (signAndIssue env keysets keysets operationId request) checked := by
            unfold processMintRequest
            rw [hquote]
            simp only [hmethod, if_true, hcommit]
          have hfound := credits_find? MintQuote.paymentMethod (fun id paid quote => by
            unfold Db.setPaid
            split <;> rfl) hcredits request.quote
          rw [hquote, Option.map_some, hmethod] at hfound
          refine ⟨?_, fun e he id => ?_, fun e he => ?_⟩
          · rw [hrun, Tx.commit_ne_panic, signAndIssue_ne_panic]
            rintro other hother hempty
            rw [hother, Option.map_some, hempty.method] at hfound
            cases hfound
          · rw [hrun] at he ⊢
            rw [Tx.commit_of_err he]
            exact credits_find? MintQuote.amountIssued (fun id paid quote => by
              unfold Db.setPaid
              split <;> rfl) hcredits id
          · rw [hrun] at he ⊢
            rw [Tx.commit_of_err he]
            exact credits_same Db.blindSignatures (fun _ _ _ => rfl) hcredits
        · rcases hcommit : Tx.commit (checkMintQuotePaid answer quote) db with ⟨u | e | _, s⟩
          · rw [hcommit] at hnone
            exact absurd rfl (hnone u)
          · rw [hcommit] at hsame
            dsimp only at hsame
            have hrun : processMintRequest env keysets answer operationId request db =
                (.err e, db) := by
              unfold processMintRequest
              rw [hquote]
              simp only [hmethod, if_true, hcommit, hsame]
            refine ⟨?_, fun _ _ _ => ?_, fun _ _ => ?_⟩ <;> rw [hrun]
            exact nofun
          · rw [hcommit] at hcheck
            exact absurd rfl hcheck
      · have hrun : processMintRequest env keysets answer operationId request db =
            Tx.commit (signAndIssue env keysets keysets operationId request) db := by
          unfold processMintRequest
          rw [hquote]
          simp only [hmethod, if_false]
        have hreturns := @signAndIssue_ne_panic env keysets operationId request db keysets
        simp only [hquote, Option.some.injEq, forall_eq'] at hreturns
        rw [← hreturns, ← Tx.commit_ne_panic, ← hrun]
        refine ⟨IssuanceTotal.returns, fun h => ⟨h, fun e he id => ?_, fun e he => ?_⟩⟩
        · rw [hrun] at he ⊢
          rw [Tx.commit_of_err he]
        · rw [hrun] at he ⊢
          rw [Tx.commit_of_err he]

/-! ### An offer that has been paid -/

/-- Signatures are valid. -/
def signedEnv : Env := { sampleEnv with verifySchnorr := fun _ _ _ => true }

/-- An offer with the key of its owner. -/
def offerQuote : MintQuote :=
  ⟨.uuid 0, none, .sat, "lno1", .label "o1", some ⟨false, 1⟩, .zero, .zero, .bolt12⟩

/-- It has been paid eight. -/
def offerPaid : World :=
  World.reached signedEnv (fun _ _ => true) [sampleKeyset]
    [.createMintQuote offerQuote, .notifyPayment ⟨.label "o1", 8, .sat, "p1"⟩]

/-- A signed request for these outputs. -/
def offerRequest (outputs : List BlindedMessage) : MintRequest :=
  ⟨.uuid 0, outputs, some (String.ofList (List.replicate 128 '0'))⟩

/-- A request for the eight ends. -/
theorem issuanceTotal_iff_eight :
    IssuanceTotal signedEnv [sampleKeyset] none 7 (offerRequest [sampleMessage 8 5]) offerPaid.db := by
  have hanswer : (none : StatusAnswer) ≠ some .panic := nofun
  refine (issuanceTotal_iff hanswer signedEnv [sampleKeyset] 7 (offerRequest [sampleMessage 8 5])
    offerPaid.db).mpr fun quote hquote hempty => ?_
  cases hempty.outputs

/-- A request for nothing panics. -/
theorem not_issuanceTotal :
    ¬ IssuanceTotal signedEnv [sampleKeyset] none 7 (offerRequest []) offerPaid.db := by
  intro h
  exact h.returns (by decide +kernel)

end Cdk
