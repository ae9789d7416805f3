import Cdk.Mint.Auth
import Cdk.Mint.Moves

/-!
# Blind tokens in runs of the mint

The mint issues tokens, burns them for requests to blind-protected endpoints,
and serves its other requests meanwhile. The signatory is shared: it signs
whatever keyset an output names, and it verifies a token like any other proof.
Two questions decide whether tokens are separate from money: which keysets sign
the outputs of token requests, and which proofs pay for a protected request.
-/

namespace Cdk

open Lib

/-- No step changes the unit of a keyset. -/
theorem Move.unitOf {env : Env} {w w' : World} {a : Action} (h : Move env w a w') {id : Id}
    {unit : CurrencyUnit} (hu : w.keysets.unitOf id = some unit) :
    w'.keysets.unitOf id = some unit := by
  cases h
  case keysets keysets hunits => exact hunits id unit hu
  all_goals exact hu

/-! ## Signatures of the other requests -/

/-- The signatures that a step of the mint gives out. Those of a mint request are returned once
its transaction has committed; those of a swap and of change count from the moment they are
made. -/
def World.signatures (env : Env) (w : World) : Action → List BlindSignature
  | .issue signing request =>
      match signAndIssue env w.keysets signing w.nextId request w.db with
      | .ok (signatures, _) => signatures
      | _ => []
  | .signSwap task fails =>
      if task ∈ w.swaps ∧ task.signatures = none ∧ fails = false then
        (blindSign env w.keysets task.setup.blindedMessages).getD []
      else []
  | .signChange task _ =>
      match task.phase with
      | .change change =>
          if task ∈ w.melts then (blindSign env w.keysets change.messages).getD [] else []
      | .paying _ => []
  | _ => []

section Signatures

variable {env : Env} {w : World}

/-- A signature is of a keyset that the signatory knows. -/
theorem blindSign_known {keysets : Keysets} {messages : List BlindedMessage}
    {signature : BlindSignature} (h : signature ∈ (blindSign env keysets messages).getD []) :
    ∃ unit, keysets.unitOf signature.keysetId = some unit := by
  cases hsign : blindSign env keysets messages with
  | err e => simp [hsign, Outcome.getD] at h
  | panic => simp [hsign, Outcome.getD] at h
  | ok signatures =>
      rw [hsign] at h
      obtain ⟨message, -, hone⟩ := Outcome.exists_of_mem_mapM hsign h
      obtain ⟨⟨keyset, hk, -⟩, -, hid⟩ := signOne_eq_ok hone
      exact ⟨keyset.unit, Keysets.unitOf_eq_some.mpr ⟨keyset, hid ▸ hk, rfl⟩⟩

/-- The signatures of a mint request are of keysets that its transaction knows. -/
theorem signAndIssue_known {keysets signing : Keysets} {operationId : Uuid} {request : MintRequest}
    {signatures : List BlindSignature} {db db' : Db} {signature : BlindSignature}
    (h : signAndIssue env keysets signing operationId request db = .ok (signatures, db'))
    (hs : signature ∈ signatures) : ∃ unit, keysets.unitOf signature.keysetId = some unit := by
  simp only [signAndIssue, issueSignatures, Tx.bind_ok, Tx.lift_ok, Tx.pure_ok] at h
  obtain ⟨_, _, ⟨hsign, rfl⟩, _, _, ⟨_, _, -, _, _, ⟨-, rfl⟩, _, _, ⟨-, rfl⟩, _, _, hout, -⟩, rfl,
    -⟩ := h
  obtain ⟨message, hm, hone⟩ := Outcome.exists_of_mem_mapM hsign hs
  obtain ⟨keyset, hk⟩ := verifyOutputs_keysets hout message hm
  have hid := (signOne_eq_ok hone).2.2
  exact ⟨keyset.unit, Keysets.unitOf_eq_some.mpr ⟨keyset, hid ▸ hk, rfl⟩⟩

theorem signatures_known {a : Action} {signature : BlindSignature}
    (h : signature ∈ w.signatures env a) :
    ∃ unit, w.keysets.unitOf signature.keysetId = some unit := by
  unfold World.signatures at h
  split at h
  next signing request =>
    split at h
    next hissue => exact signAndIssue_known hissue h
    next => cases h
  next task fails =>
    split at h
    next => exact blindSign_known h
    next => cases h
  next task _ =>
    split at h
    next change =>
      split at h
      next => exact blindSign_known h
      next => cases h
    next => cases h
  next => cases h

end Signatures

/-! ## The mint and its tokens -/

/-- A mint with its auth database. A token that has passed the signature check stays checked: a
request may run its transaction at any later time. Three logs record the successful
verifications, the signatures returned by `mint_blind_auth`, and all others. -/
structure AuthWorld where
  mint : World
  authDb : AuthDb
  checked : List AuthProof
  verified : List AuthProof
  issued : List BlindSignature
  signed : List BlindSignature

inductive AuthAction where
  | mint (action : Action)
  | mintBlindAuth (token : AuthToken) (request : MintAuthRequest)
  | checkAuth (token : Option AuthToken) (endpoint : ProtectedEndpoint)
  | burn (proof : AuthProof) (insertFails : Bool)

namespace AuthWorld

def init (keysets : Keysets) : AuthWorld := ⟨World.init keysets, Table.empty, [], [], [], []⟩

variable (env : Env) (config : AuthConfig) (backends : Backends) (w : AuthWorld)

def unitOf (id : Id) : Option CurrencyUnit := w.mint.keysets.unitOf id

/-- The rounds of `mint_blind_auth` write nothing, so they are taken at once. -/
def mintBlindAuth (token : AuthToken) (request : MintAuthRequest) : AuthWorld :=
  match Cdk.mintBlindAuth env config w.mint.keysets token request with
  | .ok signatures => { w with issued := w.issued ++ signatures }
  | _ => w

def checkAuth (token : Option AuthToken) (endpoint : ProtectedEndpoint) : AuthWorld :=
  match Cdk.checkAuth env config w.mint.keysets token endpoint with
  | .ok (some proof) => { w with checked := w.checked ++ [proof] }
  | _ => w

def burn (proof : AuthProof) (insertFails : Bool) : AuthWorld :=
  match checkBlindAuthProofSpendable env config insertFails proof w.authDb with
  | .ok (_, authDb) => { w with authDb := authDb, verified := w.verified ++ [proof] }
  | _ => w

def step : AuthAction → AuthWorld
  | .mint action =>
      { w with
        mint := w.mint.step env backends action
        signed := w.signed ++ w.mint.signatures env action }
  | .mintBlindAuth token request => w.mintBlindAuth env config token request
  | .checkAuth token endpoint => w.checkAuth env config token endpoint
  | .burn proof insertFails => if proof ∈ w.checked then w.burn env config proof insertFails else w

/-- The state that a new mint reaches by a list of actions. -/
def reached (keysets : Keysets) (actions : List AuthAction) : AuthWorld :=
  run (AuthWorld.step env config backends) (AuthWorld.init keysets) actions

end AuthWorld

/-- What a step can do. -/
inductive AuthMove (env : Env) (config : AuthConfig) (backends : Backends) (w : AuthWorld) :
    AuthAction → AuthWorld → Prop where
  | mint (action : Action) :
      AuthMove env config backends w (.mint action) { w with
        mint := w.mint.step env backends action
        signed := w.signed ++ w.mint.signatures env action }
  | issue (token : AuthToken) (request : MintAuthRequest) (signatures : List BlindSignature)
      (h : mintBlindAuth env config w.mint.keysets token request = .ok signatures) :
      AuthMove env config backends w (.mintBlindAuth token request)
        { w with issued := w.issued ++ signatures }
  | refuse (token : AuthToken) (request : MintAuthRequest)
      (h : ∀ signatures, mintBlindAuth env config w.mint.keysets token request ≠ .ok signatures) :
      AuthMove env config backends w (.mintBlindAuth token request) w
  | check (token : Option AuthToken) (endpoint : ProtectedEndpoint) (proof : AuthProof)
      (h : checkAuth env config w.mint.keysets token endpoint = .ok (some proof)) :
      AuthMove env config backends w (.checkAuth token endpoint)
        { w with checked := w.checked ++ [proof] }
  | pass (token : Option AuthToken) (endpoint : ProtectedEndpoint) :
      AuthMove env config backends w (.checkAuth token endpoint) w
  | burn (proof : AuthProof) (insertFails : Bool) (authDb : AuthDb) (hproof : proof ∈ w.checked)
      (h : checkBlindAuthProofSpendable env config insertFails proof w.authDb = .ok ((), authDb)) :
      AuthMove env config backends w (.burn proof insertFails)
        { w with authDb := authDb, verified := w.verified ++ [proof] }
  | keep (proof : AuthProof) (insertFails : Bool) :
      AuthMove env config backends w (.burn proof insertFails) w

section Steps

variable {env : Env} {config : AuthConfig} {backends : Backends} {w w' : AuthWorld} {a : AuthAction}

theorem authStep_move (w : AuthWorld) (a : AuthAction) :
    AuthMove env config backends w a (w.step env config backends a) := by
  cases a with
  | mint action => exact .mint action
  | mintBlindAuth token request =>
      simp only [AuthWorld.step, AuthWorld.mintBlindAuth]
      split
      next signatures h => exact .issue token request signatures h
      next h => exact .refuse token request h
  | checkAuth token endpoint =>
      simp only [AuthWorld.step, AuthWorld.checkAuth]
      split
      next proof h => exact .check token endpoint proof h
      next => exact .pass token endpoint
  | burn proof insertFails =>
      simp only [AuthWorld.step, AuthWorld.burn]
      split
      next hproof =>
        split
        next authDb h => exact .burn proof insertFails authDb hproof h
        next => exact .keep proof insertFails
      next => exact .keep proof insertFails

theorem AuthMove.unitOf (h : AuthMove env config backends w a w') {id : Id} {unit : CurrencyUnit}
    (hu : w.unitOf id = some unit) : w'.unitOf id = some unit := by
  cases h
  case mint action => exact (step_move env backends w.mint action).unitOf hu
  all_goals exact hu

/-- A call of `verify_auth` that succeeds is a check, and for a blind-protected endpoint a burn: it
is one schedule of the system, which records the token as verified. -/
theorem verifyAuth_run {insertFails : Bool} {token : Option AuthToken}
    {endpoint : ProtectedEndpoint} {authDb : AuthDb}
    (h : verifyAuth env config w.mint.keysets insertFails token endpoint w.authDb =
      .ok ((), authDb)) :
    ∃ burned actions, checkAuth env config w.mint.keysets token endpoint = .ok burned ∧
      (run (AuthWorld.step env config backends) w actions).authDb = authDb ∧
      (run (AuthWorld.step env config backends) w actions).verified =
        w.verified ++ burned.toList := by
  rw [verifyAuth, Tx.bind_ok] at h
  obtain ⟨burned, _, hlift, h⟩ := h
  obtain ⟨hcheck, rfl⟩ := Tx.lift_ok.mp hlift
  refine ⟨burned, ?_⟩
  cases burned with
  | none =>
      obtain ⟨-, rfl⟩ := Tx.pure_ok.mp h
      exact ⟨[], hcheck, rfl, by simp⟩
  | some proof =>
      let w' : AuthWorld := { w with checked := w.checked ++ [proof] }
      have hchecked : w.step env config backends (.checkAuth token endpoint) = w' := by
        simp only [AuthWorld.step, AuthWorld.checkAuth, hcheck]
        rfl
      have hburned : w'.step env config backends (.burn proof insertFails) =
          { w' with authDb := authDb, verified := w'.verified ++ [proof] } := by
        have hmem : proof ∈ w'.checked := by simp [w']
        have hok : checkBlindAuthProofSpendable env config insertFails proof w'.authDb =
            .ok ((), authDb) := h
        simp only [AuthWorld.step, if_pos hmem, AuthWorld.burn, hok]
      refine ⟨[.checkAuth token endpoint, .burn proof insertFails], hcheck, ?_⟩
      rw [run_cons, run_cons, run_nil, hchecked, hburned]
      exact ⟨rfl, rfl⟩

end Steps

/-! ## Tokens are not money -/

namespace AuthWorld

variable (env : Env) (w : AuthWorld)

/-- Every signature returned by `mint_blind_auth` is of an Auth keyset. -/
def IssuedAuth : Prop := ∀ s ∈ w.issued, w.unitOf s.keysetId = some .auth

/-- Besides, proofs made from these signatures are accepted as inputs of no other unit. -/
def Separate : Prop :=
  w.IssuedAuth ∧ ∀ (now : Nat) (inputs : List Proof) (v : Verification),
    (∀ p ∈ inputs, ∃ s ∈ w.issued, p.keysetId = s.keysetId ∧ p.amount = s.amount) →
      verifyInputs env w.mint.keysets now inputs = .ok v → v.unit = some .auth

/-- Every signature returned by `mint_blind_auth` is of a known keyset. -/
def IssuedKnown : Prop := ∀ s ∈ w.issued, ∃ unit, w.unitOf s.keysetId = some unit

end AuthWorld

/-- A request for tokens that is accepted names Auth keysets only. -/
def NamesAuth (env : Env) (config : AuthConfig) (w : AuthWorld) : AuthAction → Prop
  | .mintBlindAuth token request =>
      authRequestAccepted env config w.mint.keysets token request = true →
        ∀ m ∈ request.outputs, w.unitOf m.keysetId = some .auth
  | _ => True

section Separation

variable {env : Env} {config : AuthConfig} {backends : Backends} {w w' : AuthWorld} {a : AuthAction}

/-- The inputs of a request have the unit of their keysets. -/
theorem separate_iff : w.Separate env ↔ w.IssuedAuth := by
  refine ⟨fun h => h.1, fun h => ⟨h, ?_⟩⟩
  intro now inputs v hmade hok
  obtain ⟨-, -, ⟨unit, hv, hunit⟩, -⟩ := verifyInputs_eq_ok hok
  obtain ⟨p, hp, hkeyset⟩ := verifyInputsKeyset_eq_ok hunit
  obtain ⟨s, hs, hid, -⟩ := hmade p hp
  have hauth : w.unitOf p.keysetId = some .auth := hid ▸ h s hs
  rw [hv, ← hauth]
  exact (Keysets.unitOf_eq_some.mpr hkeyset).symm

/-- The signatures of a token request are of the keysets that its outputs name. -/
theorem mintBlindAuth_auth_iff {token : AuthToken} {request : MintAuthRequest}
    {signatures : List BlindSignature}
    (h : mintBlindAuth env config w.mint.keysets token request = .ok signatures) :
    (∀ s ∈ signatures, w.unitOf s.keysetId = some .auth) ↔
      ∀ m ∈ request.outputs, w.unitOf m.keysetId = some .auth := by
  obtain ⟨_, _, _, -, -, -, -, -, hsign⟩ := mintBlindAuth_eq_ok.mp h
  constructor
  · intro hsigs m hm
    obtain ⟨s, hs, hone⟩ := Outcome.exists_mem_of_mapM hsign hm
    have hid := (signOne_eq_ok (signAuthOutput_eq_ok.mp hone).2).2.2
    exact hid ▸ hsigs s hs
  · intro houtputs s hs
    obtain ⟨m, hm, hone⟩ := Outcome.exists_of_mem_mapM hsign hs
    have hid := (signOne_eq_ok (signAuthOutput_eq_ok.mp hone).2).2.2
    exact hid ▸ houtputs m hm

theorem AuthMove.issuedKnown (h : AuthMove env config backends w a w') (hk : w.IssuedKnown) :
    w'.IssuedKnown := by
  have hold : ∀ s ∈ w.issued, ∃ unit, w'.unitOf s.keysetId = some unit := by
    intro s hs
    obtain ⟨unit, hu⟩ := hk s hs
    exact ⟨unit, h.unitOf hu⟩
  cases h
  case issue token request signatures hok =>
    intro s hs
    rcases List.mem_append.mp hs with hs | hs
    · exact hold s hs
    · obtain ⟨_, _, _, -, -, -, -, -, hsign⟩ := mintBlindAuth_eq_ok.mp hok
      obtain ⟨m, -, hone⟩ := Outcome.exists_of_mem_mapM hsign hs
      obtain ⟨⟨keyset, hkeyset, -⟩, -, hid⟩ := signOne_eq_ok (signAuthOutput_eq_ok.mp hone).2
      exact ⟨keyset.unit, Keysets.unitOf_eq_some.mpr ⟨keyset, hid ▸ hkeyset, rfl⟩⟩
  all_goals exact hold

/-- One step keeps the signatures of tokens to Auth keysets exactly when its request does. -/
theorem AuthMove.issuedAuth_iff (h : AuthMove env config backends w a w') (hk : w.IssuedKnown) :
    w'.IssuedAuth ↔ w.IssuedAuth ∧ NamesAuth env config w a := by
  -- The unit of an old signature is known, so no step can change it.
  have hold : ∀ s ∈ w.issued,
      (w'.unitOf s.keysetId = some .auth ↔ w.unitOf s.keysetId = some .auth) := by
    intro s hs
    obtain ⟨unit, hu⟩ := hk s hs
    rw [hu, h.unitOf hu]
  have hsame : (∀ s ∈ w.issued, w'.unitOf s.keysetId = some .auth) ↔ w.IssuedAuth :=
    forall₂_congr hold
  cases h
  case issue token request signatures hok =>
    have haccepted := authRequestAccepted_iff.mpr ⟨signatures, hok⟩
    have hnew := mintBlindAuth_auth_iff hok
    simp only [AuthWorld.IssuedAuth, List.forall_mem_append, NamesAuth, haccepted, forall_const]
    exact and_congr hsame hnew
  case refuse token request hno =>
    refine ⟨fun hw => ⟨hw, ?_⟩, fun hw => hw.1⟩
    intro haccepted
    obtain ⟨signatures, hok⟩ := authRequestAccepted_iff.mp haccepted
    exact absurd hok (hno signatures)
  all_goals exact hsame.trans (iff_of_eq (and_true _).symm)

end Separation

/-- In every run, tokens are separate from money exactly when every accepted request for tokens
names Auth keysets only. -/
theorem blind_auth_separate_iff (env : Env) (config : AuthConfig) (backends : Backends)
    (keysets : Keysets) (actions : List AuthAction) :
    (AuthWorld.reached env config backends keysets actions).Separate env ↔
      Along (AuthWorld.step env config backends) (NamesAuth env config) (AuthWorld.init keysets)
        actions := by
  have hinit : (AuthWorld.init keysets).IssuedKnown := by
    intro s hs
    cases hs
  have hnone : (AuthWorld.init keysets).IssuedAuth := by
    intro s hs
    cases hs
  rw [separate_iff, AuthWorld.reached,
    run_iff_along (fun w a => (authStep_move w a).issuedKnown)
      (fun w a => (authStep_move w a).issuedAuth_iff) hinit]
  exact and_iff_right hnone

/-! ### A token request that mints money -/

/-- The key of a keyset for an amount is added to the point that is signed. -/
def tokenSign (id : Id) (amount : Amount) (point : PublicKey) : PublicKey :=
  match id with
  | .v1 bytes => ⟨point.odd, point.x + bytes.setWidth 256 * 16 + BitVec.ofNat 256 amount.toNat⟩
  | .v2 bytes => ⟨point.odd, point.x + bytes * 16 + BitVec.ofNat 256 amount.toNat⟩

/-- A signature verifies only for the secret and the key that it was made with. -/
def tokenEnv : Env :=
  { sampleEnv with
    signMessage := fun id amount message => some (tokenSign id amount message)
    verifyMessage := fun id amount c secret =>
      (sampleEnv.hashToCurve secret).map (tokenSign id amount) = some c }

/-- The clear token `cat` is good, and swaps are blind-protected. -/
def tokenConfig : AuthConfig where
  oidcClient := some fun cat => cat = "cat"
  batMaxMint := some 10
  authLocalstore := some fun endpoint => if endpoint.path = .swap then some .blind else none

/-- A keyset for satoshis and one for tokens. -/
def tokenKeysets : Keysets := [sampleKeyset, ⟨.v1 2, .auth, true, 0, [.one]⟩]

/-- The message of a secret of one letter, without a blinding factor. -/
def tokenMessage (id : Id) (letter : BitVec 256) : BlindedMessage :=
  ⟨.one, id, ⟨false, 256 + letter⟩⟩

/-- Its signature. -/
def tokenSignature (id : Id) (letter : BitVec 256) : BlindSignature :=
  ⟨.one, id, tokenSign id .one ⟨false, 256 + letter⟩⟩

/-- The state after a run of the example. -/
def tokenRun (actions : List AuthAction) : AuthWorld :=
  AuthWorld.reached tokenEnv tokenConfig (fun _ _ => true) tokenKeysets actions

/-- A clear token buys a signature of the satoshi keyset, and the mint accepts the proof made from
it as an input of one satoshi. -/
theorem blind_auth_mints_money :
    (tokenRun [.mintBlindAuth (.clearAuth "cat") ⟨[tokenMessage (.v1 1) 97]⟩]).issued =
        [tokenSignature (.v1 1) 97] ∧
      verifyInputs tokenEnv tokenKeysets 0
        [⟨.one, .v1 1, "a", (tokenSignature (.v1 1) 97).c, none⟩] = .ok ⟨.one, some .sat⟩ ∧
      ¬ (tokenRun [.mintBlindAuth (.clearAuth "cat") ⟨[tokenMessage (.v1 1) 97]⟩]).Separate
        tokenEnv := by
  refine ⟨by decide +kernel, by decide +kernel, ?_⟩
  intro h
  have hauth := h.1 (tokenSignature (.v1 1) 97) (by decide +kernel)
  revert hauth
  decide +kernel

/-! ## One token, one request -/

namespace AuthWorld

variable (w : AuthWorld)

/-- The secrets of a keyset for which a token with a valid signature has been presented. -/
def secretsOf (id : Id) : List String :=
  ((w.checked.filter fun p => p.keysetId = id).map AuthProof.secret).dedup

/-- The signatures for one that a keyset has given out. -/
def signaturesOf (id : Id) : Nat :=
  (w.issued ++ w.signed).countP fun s => s.keysetId = id ∧ s.amount = .one

/-- No keyset has more valid tokens than it has given out signatures for one. -/
def Unforgeable : Prop :=
  ∀ p ∈ w.checked, (w.secretsOf p.keysetId).length ≤ w.signaturesOf p.keysetId

/-- There were at most as many successful verifications as Auth signatures returned by
`mint_blind_auth`, and only tokens of Auth keysets have passed. -/
def OneRequest : Prop :=
  w.verified.length ≤ w.issued.countP (fun s => w.unitOf s.keysetId = some .auth) ∧
    ∀ p ∈ w.verified, w.unitOf p.keysetId = some .auth

end AuthWorld

/-- The steps that keep tokens apart: no other request has an output signed with an Auth keyset,
a token with a valid signature that is presented on a blind-protected endpoint is of an Auth
keyset, and no insert of a token fails. -/
def TokensApart (env : Env) (config : AuthConfig) (w : AuthWorld) : AuthAction → Prop
  | .mint action => ∀ s ∈ w.mint.signatures env action, w.unitOf s.keysetId ≠ some .auth
  | .checkAuth (some (.blindAuth token)) endpoint =>
      isProtected config endpoint = some .blind →
        verifyBlindAuth env w.mint.keysets token = .ok () →
          w.unitOf token.authProof.keysetId = some .auth
  | .burn _ insertFails => insertFails = false
  | _ => True

/-- What holds in every run of such steps. -/
structure TokensInv (env : Env) (w : AuthWorld) : Prop where
  checkedAuth : ∀ p ∈ w.checked, w.unitOf p.keysetId = some .auth
  verifiedChecked : ∀ p ∈ w.verified, p ∈ w.checked
  /-- A verified token is burned. -/
  burned : ∀ p ∈ w.verified, ∃ y, p.y env = some y ∧
    ∃ r ∈ w.authDb.rows, r.y = y ∧ r.state = .spent
  once : (w.verified.map AuthProof.secret).Nodup
  signedOther : ∀ s ∈ w.signed, ∃ unit, w.unitOf s.keysetId = some unit ∧ unit ≠ .auth

section OneRequest

variable {env : Env} {config : AuthConfig} {backends : Backends} {w w' : AuthWorld} {a : AuthAction}

theorem tokensInv_init (keysets : Keysets) : TokensInv env (AuthWorld.init keysets) where
  checkedAuth := by simp [AuthWorld.init]
  verifiedChecked := by simp [AuthWorld.init]
  burned := by simp [AuthWorld.init]
  once := by simp [AuthWorld.init]
  signedOther := by simp [AuthWorld.init]

/-- A token that is burned now was not burned for an earlier request. -/
theorem TokensInv.burn {proof : AuthProof} {authDb : AuthDb} (hinv : TokensInv env w)
    (hproof : proof ∈ w.checked)
    (h : checkBlindAuthProofSpendable env config false proof w.authDb = .ok ((), authDb)) :
    TokensInv env { w with authDb := authDb, verified := w.verified ++ [proof] } := by
  obtain ⟨y, hy, hfresh, hspent, hkept⟩ := checkBlindAuthProofSpendable_ok h
  refine ⟨hinv.checkedAuth, ?_, ?_, ?_, hinv.signedOther⟩
  · intro p hp
    rcases List.mem_append.mp hp with hp | hp
    · exact hinv.verifiedChecked p hp
    · exact List.mem_singleton.mp hp ▸ hproof
  · intro p hp
    rcases List.mem_append.mp hp with hp | hp
    · obtain ⟨y', hy', r, hr, hry, hstate⟩ := hinv.burned p hp
      exact ⟨y', hy', r, hkept r hr hstate, hry, hstate⟩
    · obtain rfl := List.mem_singleton.mp hp
      exact ⟨y, hy, hspent⟩
  · -- A token with the same secret has the same key, whose row is spent already.
    rw [List.map_append, List.map_singleton]
    refine List.nodup_append.mpr ⟨hinv.once, List.nodup_singleton _, ?_⟩
    intro secret hsecret other hother heq
    obtain ⟨p, hp, rfl⟩ := List.mem_map.mp hsecret
    rw [List.mem_singleton] at hother
    obtain ⟨y', hy', r, hr, hry, hstate⟩ := hinv.burned p hp
    have hyy : y' = y := by
      rw [AuthProof.y, heq, hother] at hy'
      exact Option.some.inj (hy'.symm.trans hy)
    exact hfresh r hr (hry.trans hyy) hstate

theorem AuthMove.tokensInv (h : AuthMove env config backends w a w') (hinv : TokensInv env w)
    (happart : TokensApart env config w a) : TokensInv env w' := by
  cases h with
  | mint action =>
      have hunit : ∀ id unit, w.unitOf id = some unit →
          (w.mint.step env backends action).keysets.unitOf id = some unit :=
        fun id unit => (step_move env backends w.mint action).unitOf
      refine ⟨?_, hinv.verifiedChecked, hinv.burned, hinv.once, ?_⟩
      · intro p hp
        exact hunit _ _ (hinv.checkedAuth p hp)
      · intro s hs
        rcases List.mem_append.mp hs with hs | hs
        · obtain ⟨unit, hu, hne⟩ := hinv.signedOther s hs
          exact ⟨unit, hunit _ _ hu, hne⟩
        · obtain ⟨unit, hu⟩ := signatures_known hs
          refine ⟨unit, hunit _ _ hu, ?_⟩
          rintro rfl
          exact happart s hs hu
  | issue => exact ⟨hinv.1, hinv.2, hinv.3, hinv.4, hinv.5⟩
  | check token endpoint proof hcheck =>
      obtain ⟨hblind, rfl, hverify⟩ := checkAuth_eq_some hcheck
      refine ⟨?_, ?_, hinv.burned, hinv.once, hinv.signedOther⟩
      · intro p hp
        rcases List.mem_append.mp hp with hp | hp
        · exact hinv.checkedAuth p hp
        · exact List.mem_singleton.mp hp ▸ happart hblind hverify
      · intro p hp
        exact List.mem_append_left _ (hinv.verifiedChecked p hp)
  | burn proof insertFails authDb hproof hburn =>
      have hfails : insertFails = false := happart
      subst hfails
      exact hinv.burn hproof hburn
  | refuse => exact hinv
  | pass => exact hinv
  | keep => exact hinv

/-- For each keyset, the verified tokens are at most the tokens that were issued with it. -/
theorem TokensInv.count_le (hinv : TokensInv env w) (hunf : w.Unforgeable) {p : AuthProof}
    (hp : p ∈ w.verified) :
    (w.verified.map AuthProof.keysetId).count p.keysetId ≤
      ((w.issued.filter fun s => w.unitOf s.keysetId = some .auth).map
        BlindSignature.keysetId).count p.keysetId := by
  have hauth : w.unitOf p.keysetId = some .auth := hinv.checkedAuth p (hinv.verifiedChecked p hp)
  have hverified : (w.verified.map AuthProof.keysetId).count p.keysetId ≤
      (w.secretsOf p.keysetId).length := by
    have hlen : (w.verified.map AuthProof.keysetId).count p.keysetId =
        ((w.verified.filter fun q => q.keysetId = p.keysetId).map AuthProof.secret).length := by
      rw [List.length_map, ← List.countP_eq_length_filter, List.count_eq_countP, List.countP_map]
      rfl
    rw [hlen]
    refine (List.Nodup.subperm ?_ ?_).length_le
    · exact (List.filter_sublist.map _).nodup hinv.once
    · refine List.Subset.trans (List.map_subset _ ?_) (List.subset_dedup _)
      exact List.filter_subset _ hinv.verifiedChecked
  have hsigned : w.signed.countP (fun s => s.keysetId = p.keysetId ∧ s.amount = .one) = 0 := by
    apply List.countP_eq_zero.mpr
    intro s hs hid
    obtain ⟨unit, hu, hne⟩ := hinv.signedOther s hs
    rw [(of_decide_eq_true hid).1, hauth] at hu
    exact hne (Option.some.inj hu).symm
  have hissued : w.issued.countP (fun s => s.keysetId = p.keysetId ∧ s.amount = .one) ≤
      ((w.issued.filter fun s => w.unitOf s.keysetId = some .auth).map
        BlindSignature.keysetId).count p.keysetId := by
    rw [List.count_eq_countP, List.countP_map, List.countP_filter]
    apply List.countP_mono_left
    intro s _ hid
    have hid := (of_decide_eq_true hid).1
    simp [hid, hauth]
  calc (w.verified.map AuthProof.keysetId).count p.keysetId
      ≤ (w.secretsOf p.keysetId).length := hverified
    _ ≤ w.signaturesOf p.keysetId := hunf p (hinv.verifiedChecked p hp)
    _ = w.issued.countP (fun s => s.keysetId = p.keysetId ∧ s.amount = .one) := by
        rw [AuthWorld.signaturesOf, List.countP_append, hsigned, Nat.add_zero]
    _ ≤ _ := hissued

theorem TokensInv.oneRequest (hinv : TokensInv env w) (hunf : w.Unforgeable) : w.OneRequest := by
  constructor
  · have hsub : (w.verified.map AuthProof.keysetId).Subperm
        ((w.issued.filter fun s => w.unitOf s.keysetId = some .auth).map
          BlindSignature.keysetId) := by
      apply List.subperm_ext_iff.mpr
      intro id hid
      obtain ⟨p, hp, rfl⟩ := List.mem_map.mp hid
      exact hinv.count_le hunf hp
    simpa [List.countP_eq_length_filter] using hsub.length_le
  · intro p hp
    exact hinv.checkedAuth p (hinv.verifiedChecked p hp)

end OneRequest

/-- Where signatures cannot be forged, in every run of steps that keep tokens apart every token
pays for one request and only tokens of Auth keysets pay. -/
theorem blind_auth_one_request (env : Env) (config : AuthConfig) (backends : Backends)
    (keysets : Keysets) (actions : List AuthAction)
    (happart : Along (AuthWorld.step env config backends) (TokensApart env config)
      (AuthWorld.init keysets) actions)
    (hunf : (AuthWorld.reached env config backends keysets actions).Unforgeable) :
    (AuthWorld.reached env config backends keysets actions).OneRequest := by
  have hinv : TokensInv env (AuthWorld.reached env config backends keysets actions) :=
    invariant_along (fun w a hw hc => (authStep_move w a).tokensInv hw hc)
      (tokensInv_init keysets) happart
  exact hinv.oneRequest hunf

/-! ### Runs that pay twice -/

namespace AuthWorld

instance (w : AuthWorld) : Decidable w.Unforgeable := inferInstanceAs (Decidable (∀ p ∈ _, _))

instance (w : AuthWorld) : Decidable w.OneRequest := inferInstanceAs (Decidable (_ ∧ _))

end AuthWorld

instance (env : Env) (config : AuthConfig) (w : AuthWorld) (a : AuthAction) :
    Decidable (TokensApart env config w a) :=
  match a with
  | .mint _ => inferInstanceAs (Decidable (∀ s ∈ _, _))
  | .mintBlindAuth _ _ => inferInstanceAs (Decidable True)
  | .checkAuth none _ => inferInstanceAs (Decidable True)
  | .checkAuth (some (.clearAuth _)) _ => inferInstanceAs (Decidable True)
  | .checkAuth (some (.blindAuth _)) _ => inferInstanceAs (Decidable (_ → _ → _))
  | .burn _ _ => inferInstanceAs (Decidable (_ = false))

/-- The token of a secret of one letter. -/
def tokenProof (id : Id) (secret : String) (letter : BitVec 256) : AuthProof :=
  ⟨id, secret, (tokenSignature id letter).c⟩

/-- Pay for a swap with a token. -/
def payWith (proof : AuthProof) : List AuthAction :=
  [.checkAuth (some (.blindAuth ⟨proof⟩)) ⟨.post, .swap⟩, .burn proof false]

/-- A satoshi is paid for and issued, and its proof pays for a request. -/
def tokenMoney : List AuthAction :=
  [.mint (.createMintQuote
      ⟨.uuid 0, some .one, .sat, "lnbc1", .label "l1", none, .zero, .zero, .bolt11⟩),
    .mint (.notifyPayment ⟨.label "l1", .one, .sat, "p1"⟩),
    .mint (.issue tokenKeysets ⟨.uuid 0, [tokenMessage (.v1 1) 97], none⟩)] ++
    payWith (tokenProof (.v1 1) "a" 97)

/-- A token is issued and pays for a request. -/
def tokenPaid : List AuthAction :=
  .mintBlindAuth (.clearAuth "cat") ⟨[tokenMessage (.v1 2) 97]⟩ ::
    payWith (tokenProof (.v1 2) "a" 97)

def tokenSetup : SwapSetup := ⟨0, [tokenMessage (.v1 2) 98], [⟨false, 353⟩]⟩

/-- The burned token is swapped for a second one, which pays for another request. -/
def tokenSwapped : List AuthAction :=
  tokenPaid ++
    [.mint (.setupSwap 0 ⟨[(tokenProof (.v1 2) "a" 97).toProof], [tokenMessage (.v1 2) 98]⟩),
      .mint (.signSwap ⟨tokenSetup, none⟩ false),
      .mint (.finalizeSwap ⟨tokenSetup, some [tokenSignature (.v1 2) 98]⟩ none)] ++
    payWith (tokenProof (.v1 2) "b" 98)

/-- A proof of one satoshi pays for a request without any token, and one token pays for two. No
signature is forged in either run. -/
theorem blind_auth_pays_twice :
    ((tokenRun tokenMoney).Unforgeable ∧
        (tokenRun tokenMoney).verified = [tokenProof (.v1 1) "a" 97] ∧
        ¬ (tokenRun tokenMoney).OneRequest) ∧
      ((tokenRun tokenSwapped).Unforgeable ∧ (tokenRun tokenSwapped).verified.length = 2 ∧
        (tokenRun tokenSwapped).issued.length = 1 ∧ ¬ (tokenRun tokenSwapped).OneRequest) := by
  decide +kernel

theorem blind_auth_one_request_paid :
    Along (AuthWorld.step tokenEnv tokenConfig fun _ _ => true) (TokensApart tokenEnv tokenConfig)
        (AuthWorld.init tokenKeysets) tokenPaid ∧
      (tokenRun tokenPaid).verified = [tokenProof (.v1 2) "a" 97] ∧
      (tokenRun tokenPaid).OneRequest :=
  ⟨by decide +kernel, by decide +kernel,
    blind_auth_one_request tokenEnv tokenConfig (fun _ _ => true) tokenKeysets tokenPaid
      (by decide +kernel) (by decide +kernel)⟩

end Cdk
