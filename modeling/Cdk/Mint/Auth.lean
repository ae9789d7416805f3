import Cdk.Mint.Verification

/-!
# Clear and blind authentication

A client that holds a clear token can have blind tokens signed, and pays with
one of these for each request to a blind-protected endpoint. Tokens are burned
in a database of their own.
-/

namespace Cdk

open Lib

inductive Method where
  | get
  | post
deriving DecidableEq, Repr

inductive RoutePath where
  | mintQuoteBolt11
  | mintBolt11
  | meltQuoteBolt11
  | meltBolt11
  | swap
  | checkstate
  | restore
  | mintBlindAuth
  | mintQuoteBolt12
  | mintBolt12
  | meltQuoteBolt12
  | meltBolt12
  | ws
deriving DecidableEq, Repr

structure ProtectedEndpoint where
  method : Method
  path : RoutePath
deriving DecidableEq, Repr

inductive AuthRequired where
  | clear
  | blind
deriving DecidableEq, Repr

/-- A proof that carries no amount: it is always worth one. -/
structure AuthProof where
  keysetId : Id
  secret : String
  c : PublicKey
deriving DecidableEq, Repr

structure BlindAuthToken where
  authProof : AuthProof
deriving DecidableEq, Repr

inductive AuthToken where
  | clearAuth (cat : String)
  | blindAuth (token : BlindAuthToken)
deriving DecidableEq, Repr

structure MintAuthRequest where
  outputs : List BlindedMessage
deriving DecidableEq, Repr

namespace AuthProof

/-- `AuthProof::y`. -/
def y (env : Env) (proof : AuthProof) : Option PublicKey := env.hashToCurve (utf8 proof.secret)

/-- `From<AuthProof> for Proof`. -/
def toProof (proof : AuthProof) : Proof :=
  ⟨.one, proof.keysetId, proof.secret, proof.c, none⟩

end AuthProof

/-- What a mint is configured with: its OIDC client, the largest number of tokens in one request
from its NUT-22 settings, and the protected endpoints of its auth database. -/
structure AuthConfig where
  oidcClient : Option (String → Bool)
  batMaxMint : Option Nat
  authLocalstore : Option (ProtectedEndpoint → Option AuthRequired)

/-! ## Issuing tokens -/

section MintBlindAuth

variable (env : Env) (config : AuthConfig) (keysets : Keysets)

/-- `Mint::verify_clear_auth`. -/
def verifyClearAuth (cat : String) : Outcome Error Unit := do
  let verifyCat ← Outcome.ofOption .oidcNotSet config.oidcClient
  .ensure (verifyCat cat) .oidc

/-- `Mint::auth_blind_sign`. -/
def authBlindSign (message : BlindedMessage) : Outcome Error BlindSignature := do
  let signatures ← blindSign env keysets [message]
  .ofOption .internal signatures.getLast?

/-- One round of the loop of `mint_blind_auth`. -/
def signAuthOutput (message : BlindedMessage) : Outcome Error BlindSignature := do
  Outcome.ensure (message.amount = .one) .amountKey
  authBlindSign env keysets message

/-- `Mint::mint_blind_auth`. -/
def mintBlindAuth (token : AuthToken) (request : MintAuthRequest) :
    Outcome Error (List BlindSignature) :=
  match token with
  | .blindAuth _ => .err .clearAuthRequired
  | .clearAuth cat => do
      verifyClearAuth config cat
      let batMaxMint ← Outcome.ofOption .authSettingsUndefined config.batMaxMint
      Outcome.ensure (request.outputs.length ≤ batMaxMint)
        (.amountOutofLimitRange 1 batMaxMint request.outputs.length)
      request.outputs.mapM (signAuthOutput env keysets)

/-- The signatory can sign a message: its keyset is known, active and has a key for the amount,
and the message is a point that can be multiplied. -/
def signable (message : BlindedMessage) : Bool :=
  match keysets.info message.keysetId with
  | none => false
  | some keyset => keyset.active && decide (message.amount ∈ keyset.amounts) &&
      (env.signMessage message.keysetId message.amount message.blindedSecret).isSome

/-- The requests that `mint_blind_auth` answers with signatures. -/
def authRequestAccepted (token : AuthToken) (request : MintAuthRequest) : Bool :=
  match token, config.oidcClient, config.batMaxMint with
  | .clearAuth cat, some verifyCat, some batMaxMint =>
      verifyCat cat && decide (request.outputs.length ≤ batMaxMint) &&
        request.outputs.all fun m => decide (m.amount = .one) && signable env keysets m
  | _, _, _ => false

end MintBlindAuth

/-! ## Burning tokens -/

structure AuthRow where
  y : PublicKey
  proof : AuthProof
  state : State
deriving DecidableEq, Repr

/-- The proofs of the auth database. -/
abbrev AuthDb := Table AuthRow.y

/-- Set the state of the row under a key. -/
def AuthRow.withState (y : PublicKey) (state : State) (row : AuthRow) : AuthRow :=
  if row.y = y then { row with state := state } else row

theorem AuthRow.withState_y (y : PublicKey) (state : State) (row : AuthRow) :
    (row.withState y state).y = row.y := by
  unfold withState
  split <;> rfl

namespace AuthDb

/-- `add_proof`: the errors of the insert are only logged, those of a key that is taken and all
others. -/
def addProof (insertFails : Bool) (y : PublicKey) (proof : AuthProof) : Tx AuthDb Error Unit :=
  .write fun db => if insertFails then db else (db.insert? ⟨y, proof, .unspent⟩).getD db

/-- `update_proof_state`, which returns the state before. -/
def updateProofState (y : PublicKey) (state : State) : Tx AuthDb Error (Option State) := do
  let row ← Tx.read fun db => db.find? y
  Tx.write fun db => db.update (AuthRow.withState y state) (AuthRow.withState_y y state)
  pure (row.map AuthRow.state)

end AuthDb

section VerifyAuth

variable (env : Env) (config : AuthConfig) (keysets : Keysets)

/-- `Mint::is_protected`. -/
def isProtected (endpoint : ProtectedEndpoint) : Option AuthRequired :=
  config.authLocalstore.bind fun store => store endpoint

/-- `Mint::verify_blind_auth`. -/
def verifyBlindAuth (token : BlindAuthToken) : Outcome Error Unit :=
  signatoryVerifyProofs env keysets [token.authProof.toProof]

/-- `Mint::verify_auth` up to its transaction. A request that has to burn a token returns it. -/
def checkAuth (token : Option AuthToken) (endpoint : ProtectedEndpoint) :
    Outcome Error (Option AuthProof) :=
  match isProtected config endpoint, token with
  | none, _ => .ok none
  | some .clear, none => .err .clearAuthRequired
  | some .blind, none => .err .blindAuthRequired
  | some .clear, some (.clearAuth cat) => do
      verifyClearAuth config cat
      .ok none
  | some .blind, some (.blindAuth token) => do
      verifyBlindAuth env keysets token
      .ok (some token.authProof)
  | some .blind, some (.clearAuth _) => .err .blindAuthRequired
  | some .clear, some (.blindAuth _) => .err .clearAuthRequired

/-- The check of the state that a token had before. -/
def checkPreviousState : Option State → Outcome Error Unit
  | some .spent => .err .tokenAlreadySpent
  | some .pending => .err .tokenPending
  | _ => .ok ()

/-- `Mint::check_blind_auth_proof_spendable`. The state before is checked after the update, and
a refusal drops the transaction. -/
def checkBlindAuthProofSpendable (insertFails : Bool) (proof : AuthProof) :
    Tx AuthDb Error Unit := do
  Tx.ensure config.authLocalstore.isSome .amountKey
  let y ← Tx.lift (Outcome.ofOption .nut00 (proof.y env))
  AuthDb.addProof insertFails y proof
  let before ← AuthDb.updateProofState y .spent
  Tx.lift (checkPreviousState before)

/-- `Mint::verify_auth`. -/
def verifyAuth (insertFails : Bool) (token : Option AuthToken) (endpoint : ProtectedEndpoint) :
    Tx AuthDb Error Unit := do
  let burned ← Tx.lift (checkAuth env config keysets token endpoint)
  match burned with
  | none => pure ()
  | some proof => checkBlindAuthProofSpendable env config insertFails proof

end VerifyAuth

/-! ## What the calls establish -/

section Facts

variable {env : Env} {config : AuthConfig} {keysets : Keysets}

theorem signOne_isOk_iff {message : BlindedMessage} :
    (∃ signature, signOne env keysets message = .ok signature) ↔
      signable env keysets message = true := by
  unfold signOne signable
  cases hk : keysets.info message.keysetId with
  | none => simp [Outcome.bind_eq_ok]
  | some keyset =>
      simp only [Outcome.bind_eq_ok, Outcome.ofOption_eq_ok, Outcome.ensure_eq_ok,
        Option.some.injEq, Bool.and_eq_true, decide_eq_true_eq, Option.isSome_iff_exists]
      constructor
      · rintro ⟨signature, _, rfl, _, hactive, _, hmem, c, hc, -⟩
        exact ⟨⟨hactive, hmem⟩, c, hc⟩
      · rintro ⟨⟨hactive, hmem⟩, c, hc⟩
        exact ⟨_, keyset, rfl, (), hactive, (), hmem, c, hc, rfl⟩

/-- Signing a list of one message returns its signature. -/
theorem authBlindSign_eq (message : BlindedMessage) :
    authBlindSign env keysets message = signOne env keysets message := by
  simp only [authBlindSign, blindSign, List.mapM_cons, List.mapM_nil]
  cases signOne env keysets message <;> rfl

theorem signAuthOutput_eq_ok {message : BlindedMessage} {signature : BlindSignature} :
    signAuthOutput env keysets message = .ok signature ↔
      message.amount = .one ∧ signOne env keysets message = .ok signature := by
  simp [signAuthOutput, Outcome.bind_eq_ok, authBlindSign_eq]

theorem mintBlindAuth_eq_ok {token : AuthToken} {request : MintAuthRequest}
    {signatures : List BlindSignature} :
    mintBlindAuth env config keysets token request = .ok signatures ↔
      ∃ cat verifyCat batMaxMint, token = .clearAuth cat ∧ config.oidcClient = some verifyCat ∧
        verifyCat cat = true ∧ config.batMaxMint = some batMaxMint ∧
        request.outputs.length ≤ batMaxMint ∧
        request.outputs.mapM (signAuthOutput env keysets) = .ok signatures := by
  cases token with
  | blindAuth token => simp [mintBlindAuth]
  | clearAuth cat =>
      simp only [mintBlindAuth, verifyClearAuth, Outcome.bind_eq_ok, Outcome.ofOption_eq_ok,
        Outcome.ensure_eq_ok, decide_eq_true_eq, AuthToken.clearAuth.injEq]
      constructor
      · rintro ⟨_, ⟨verifyCat, hclient, hcat⟩, batMaxMint, hmax, _, hlen, hsign⟩
        exact ⟨cat, verifyCat, batMaxMint, rfl, hclient, hcat, hmax, hlen, hsign⟩
      · rintro ⟨_, verifyCat, batMaxMint, rfl, hclient, hcat, hmax, hlen, hsign⟩
        exact ⟨(), ⟨verifyCat, hclient, hcat⟩, batMaxMint, hmax, (), hlen, hsign⟩

/-- The accepted requests are those that are answered with signatures. -/
theorem authRequestAccepted_iff {token : AuthToken} {request : MintAuthRequest} :
    authRequestAccepted env config keysets token request = true ↔
      ∃ signatures, mintBlindAuth env config keysets token request = .ok signatures := by
  constructor
  · intro h
    unfold authRequestAccepted at h
    split at h
    next cat verifyCat batMaxMint hclient hmax =>
      simp only [Bool.and_eq_true, decide_eq_true_eq, List.all_eq_true] at h
      obtain ⟨⟨hcat, hlen⟩, houtputs⟩ := h
      have hsign : ∃ signatures,
          request.outputs.mapM (signAuthOutput env keysets) = .ok signatures := by
        apply Outcome.exists_mapM
        intro message hm
        obtain ⟨hone, hsignable⟩ := houtputs message hm
        obtain ⟨signature, hs⟩ := signOne_isOk_iff.mpr hsignable
        exact ⟨signature, signAuthOutput_eq_ok.mpr ⟨hone, hs⟩⟩
      obtain ⟨signatures, hs⟩ := hsign
      exact ⟨signatures, mintBlindAuth_eq_ok.mpr
        ⟨cat, verifyCat, batMaxMint, rfl, hclient, hcat, hmax, hlen, hs⟩⟩
    next => cases h
  · rintro ⟨signatures, h⟩
    obtain ⟨cat, verifyCat, batMaxMint, rfl, hclient, hcat, hmax, hlen, hsign⟩ :=
      mintBlindAuth_eq_ok.mp h
    simp only [authRequestAccepted, hclient, hmax, Bool.and_eq_true, decide_eq_true_eq,
      List.all_eq_true]
    refine ⟨⟨hcat, hlen⟩, ?_⟩
    intro message hm
    obtain ⟨signature, -, hs⟩ := Outcome.exists_mem_of_mapM hsign hm
    obtain ⟨hone, hs⟩ := signAuthOutput_eq_ok.mp hs
    exact ⟨hone, signOne_isOk_iff.mp ⟨signature, hs⟩⟩

/-- Only a blind token with a valid signature, on a blind-protected endpoint, is burned. -/
theorem checkAuth_eq_some {token : Option AuthToken} {endpoint : ProtectedEndpoint}
    {proof : AuthProof} (h : checkAuth env config keysets token endpoint = .ok (some proof)) :
    isProtected config endpoint = some .blind ∧ token = some (.blindAuth ⟨proof⟩) ∧
      verifyBlindAuth env keysets ⟨proof⟩ = .ok () := by
  unfold checkAuth at h
  split at h <;> simp only [Outcome.bind_eq_ok, Outcome.ok.injEq, reduceCtorEq, and_false,
    exists_false, Option.some.injEq] at h
  next token hprotected =>
    obtain ⟨_, hverify, rfl⟩ := h
    exact ⟨hprotected, rfl, hverify⟩

/-- After an insert that does not fail there is a row, and every row from before. -/
theorem AuthDb.addProof_ok {y : PublicKey} {proof : AuthProof} {db db' : AuthDb} {u : Unit}
    (h : AuthDb.addProof false y proof db = .ok (u, db')) :
    (∀ r ∈ db.rows, r ∈ db'.rows) ∧ ∃ r ∈ db'.rows, r.y = y := by
  rw [AuthDb.addProof, Tx.write_ok] at h
  subst h
  cases hins : db.insert? ⟨y, proof, .unspent⟩ with
  | none => exact ⟨fun r hr => hr, Table.insert?_eq_none.mp hins⟩
  | some added =>
      obtain ⟨-, hrows⟩ := Table.insert?_eq_some.mp hins
      refine ⟨fun r hr => ?_, ⟨y, proof, .unspent⟩, ?_, rfl⟩
      · simp [hrows, hr]
      · simp [hrows]

/-- A burned token was not spent before and is spent afterwards, and spent rows stay. -/
theorem checkBlindAuthProofSpendable_ok {proof : AuthProof} {db db' : AuthDb} {u : Unit}
    (h : checkBlindAuthProofSpendable env config false proof db = .ok (u, db')) :
    ∃ y, proof.y env = some y ∧ (∀ r ∈ db.rows, r.y = y → r.state ≠ .spent) ∧
      (∃ r ∈ db'.rows, r.y = y ∧ r.state = .spent) ∧
      ∀ r ∈ db.rows, r.state = .spent → r ∈ db'.rows := by
  simp only [checkBlindAuthProofSpendable, AuthDb.updateProofState, Tx.bind_ok, Tx.ensure_ok,
    Tx.lift_ok, Outcome.ofOption_eq_ok, Tx.read_ok, Tx.write_ok, Tx.pure_ok] at h
  obtain ⟨_, _, ⟨-, rfl⟩, y, _, ⟨hy, rfl⟩, _, added, hadd, before, _, ⟨_, _, ⟨rfl, rfl⟩, _, _, rfl,
    rfl, rfl⟩, hbefore, rfl⟩ := h
  obtain ⟨hkept, r, hr, hry⟩ := AuthDb.addProof_ok hadd
  have hstate : r.state ≠ .spent := by
    intro hspent
    rw [Table.find?_eq_some.mpr ⟨hr, hry⟩, Option.map_some, hspent] at hbefore
    cases hbefore
  refine ⟨y, hy, ?_, ⟨r.withState y .spent, ?_, ?_, ?_⟩, ?_⟩
  · intro r' hr' hy'
    rwa [Table.eq_of_key (hkept r' hr') hr (hy'.trans hry.symm)]
  · exact Table.update_rows ▸ List.mem_map_of_mem hr
  · exact (AuthRow.withState_y y .spent r).trans hry
  · simp [AuthRow.withState, hry]
  · intro r' hr' hspent
    have hsame : r'.withState y .spent = r' := by
      unfold AuthRow.withState
      split
      next => rw [← hspent]
      next => rfl
    exact Table.update_rows ▸ List.mem_map.mpr ⟨r', hkept r' hr', hsame⟩

end Facts

end Cdk
