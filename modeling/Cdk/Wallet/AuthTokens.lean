import Cdk.Mint.Auth
import Cdk.Wallet.Operations
import Mathlib.Data.List.Perm.Subperm

/-!
# The blind tokens of a wallet

A request to a blind-protected endpoint takes the first token of the store: it
reads the unspent tokens, and then removes the one that it has chosen. Requests
run at the same time and nothing holds them apart between these two calls. The
token is sent once it is removed, and the mint burns it. Left out is the loop of
`retriable_http_request`, which sends a request that failed with a status of 500
and more again, with the same token, while the retry window of the mint is open.
-/

namespace Cdk

open Lib

/-- `TryFrom<Proof> for AuthProof`. -/
def AuthProof.ofProof (proof : Proof) : AuthProof := ⟨proof.keysetId, proof.secret, proof.c⟩

/-- The points of tokens. -/
def AuthProof.points (env : Env) (tokens : List AuthProof) : List (Option PublicKey) :=
  tokens.map (AuthProof.y env)

structure AuthWallet where
  mintUrl : String
  env : Env

namespace AuthWallet

variable (wallet : AuthWallet)

/-- `ProofInfo::new` for a token. -/
def proofInfo (proof : Proof) : Outcome Wallet.Error ProofInfo := do
  let y ← Outcome.ofOption (.cdk .dhke) (proof.y wallet.env)
  let spendingCondition ← (SpendingConditions.tryFrom wallet.env proof.secret).toOption
  .ok ⟨⟨proof, none⟩, y, wallet.mintUrl, .unspent, spendingCondition, .auth⟩

/-- `AuthWallet::get_unspent_auth_proofs`. -/
def getUnspentAuthProofs (proofs : ProofTable) : List AuthProof :=
  (proofs.rows.filter fun info =>
    info.matchesConditions ⟨some wallet.mintUrl, some .auth, some [.unspent], none⟩).map
      fun info => .ofProof info.proof.toProof

end AuthWallet

/-- A wallet, its requests and the mint that burns its tokens. Two logs record which tokens were
handed to requests and what the mint has answered. -/
structure TokenWorld where
  proofs : ProofTable
  /-- Tokens that requests have read and not removed yet. -/
  chosen : List AuthProof
  handed : List AuthProof
  /-- Tokens on the way to the mint. -/
  sent : List AuthProof
  authDb : AuthDb
  answers : List (AuthProof × Outcome Error Unit)

inductive TokenAction where
  | mintBlindAuth (proofs : List Proof)
  | choose
  | remove (token : AuthProof) (fails : Bool)
  | deliver (token : AuthProof) (keysets : Keysets) (endpoint : ProtectedEndpoint)
      (insertFails : Bool)
  | restart

namespace TokenWorld

def init : TokenWorld := ⟨Table.empty, [], [], [], Table.empty, []⟩

variable (wallet : AuthWallet) (config : AuthConfig) (w : TokenWorld)

/-- The end of `mint_blind_auth`. The secrets are random: none is that of a token that has been
handed out. -/
def mintBlindAuth (proofs : List Proof) : TokenWorld :=
  match proofs.mapM wallet.proofInfo with
  | .ok infos =>
      if ∀ info ∈ infos, some info.y ∉ AuthProof.points wallet.env w.handed then
        { w with proofs := w.proofs.insertAll infos }
      else w
  | _ => w

/-- `get_blind_auth_token` up to its write. -/
def choose : TokenWorld :=
  match (wallet.getUnspentAuthProofs w.proofs).head? with
  | some token => { w with chosen := token :: w.chosen }
  | none => w

/-- `get_blind_auth_token` from its write, which may fail. -/
def remove (token : AuthProof) (fails : Bool) : TokenWorld :=
  let dropped := { w with chosen := w.chosen.erase token }
  match token.y wallet.env with
  | none => dropped
  | some y =>
      if fails then dropped
      else
        { dropped with
          proofs := w.proofs.removeAll [y]
          handed := token :: w.handed
          sent := token :: w.sent }

/-- `Mint::verify_auth` for a request with the token. -/
def deliver (token : AuthProof) (keysets : Keysets) (endpoint : ProtectedEndpoint)
    (insertFails : Bool) : TokenWorld :=
  let burned := Tx.commit
    (verifyAuth wallet.env config keysets insertFails (some (.blindAuth ⟨token⟩)) endpoint) w.authDb
  { w with
    sent := w.sent.erase token
    authDb := burned.2
    answers := (token, burned.1) :: w.answers }

def step : TokenAction → TokenWorld
  | .mintBlindAuth proofs => w.mintBlindAuth wallet proofs
  | .choose => w.choose wallet
  | .remove token fails => if token ∈ w.chosen then w.remove wallet token fails else w
  | .deliver token keysets endpoint insertFails =>
      if token ∈ w.sent then w.deliver wallet config token keysets endpoint insertFails else w
  | .restart => { w with chosen := [], sent := [] }

/-- The state that a new wallet and a new mint reach by a list of actions. -/
def reached (actions : List TokenAction) : TokenWorld :=
  run (TokenWorld.step wallet config) TokenWorld.init actions

/-- No token was handed out twice. -/
def HandedOnce : Prop := (AuthProof.points wallet.env w.handed).Nodup

end TokenWorld

/-- A request removes a token that is still stored. -/
def RemovesStored (wallet : AuthWallet) (w : TokenWorld) : TokenAction → Prop
  | .remove token fails => token ∈ w.chosen → fails = false →
      ∀ y, token.y wallet.env = some y → ∃ info ∈ w.proofs.rows, info.y = y
  | _ => True

/-- A request reads the tokens while no other is about to remove one. -/
def OneAtATime (w : TokenWorld) : TokenAction → Prop
  | .choose => w.chosen = []
  | _ => True

/-! ## Burning -/

section Burning

variable {env : Env} {config : AuthConfig} {keysets : Keysets} {token : AuthProof}
  {endpoint : ProtectedEndpoint} {insertFails : Bool} {db db' : AuthDb} {u : Unit}

/-- Inserting a token makes no row spent. -/
theorem AuthDb.addProof_spent {y : PublicKey} {r : AuthRow}
    (h : AuthDb.addProof insertFails y token db = .ok (u, db')) (hr : r ∈ db'.rows)
    (hspent : r.state = .spent) : r ∈ db.rows := by
  rw [AuthDb.addProof, Tx.write_ok] at h
  subst h
  split at hr
  next => exact hr
  next =>
    cases hins : db.insert? ⟨y, token, .unspent⟩ with
    | none => rwa [hins] at hr
    | some added =>
        rw [hins, Option.getD_some, (Table.insert?_eq_some.mp hins).2, List.mem_append,
          List.mem_singleton] at hr
        rcases hr with hr | rfl
        · exact hr
        · cases hspent

/-- What is spent behind a request was spent before, or it is the token of the request. -/
theorem verifyAuth_spent
    (h : verifyAuth env config keysets insertFails (some (.blindAuth ⟨token⟩)) endpoint db =
      .ok (u, db')) {r : AuthRow} (hr : r ∈ db'.rows) (hspent : r.state = .spent) :
    r ∈ db.rows ∨ token.y env = some r.y := by
  simp only [verifyAuth, Tx.bind_ok, Tx.lift_ok] at h
  obtain ⟨burned, _, ⟨hcheck, rfl⟩, h⟩ := h
  cases burned with
  | none =>
      rw [Tx.pure_ok] at h
      obtain ⟨-, rfl⟩ := h
      exact .inl hr
  | some proof =>
      obtain ⟨-, htoken, -⟩ := checkAuth_eq_some hcheck
      obtain rfl : token = proof := by
        cases htoken
        rfl
      simp only [checkBlindAuthProofSpendable, AuthDb.updateProofState, Tx.bind_ok, Tx.ensure_ok,
        Tx.lift_ok, Outcome.ofOption_eq_ok, Tx.read_ok, Tx.write_ok, Tx.pure_ok] at h
      obtain ⟨_, _, ⟨-, rfl⟩, y, _, ⟨hy, rfl⟩, _, added, hadd, before, _, ⟨_, _, ⟨rfl, rfl⟩, _, _,
        rfl, rfl, rfl⟩, hbefore, rfl⟩ := h
      rw [Table.update_rows, List.mem_map] at hr
      obtain ⟨r, hr, rfl⟩ := hr
      by_cases hry : r.y = y
      · rw [AuthRow.withState_y, hry]
        exact .inr hy
      · rw [AuthRow.withState, if_neg hry] at hspent ⊢
        exact .inl (AuthDb.addProof_spent hadd hr hspent)

/-- The signature of a token is verified alone. -/
theorem verifyBlindAuth_eq :
    verifyBlindAuth env keysets ⟨token⟩ = verifyOne env keysets token.toProof := by
  unfold verifyBlindAuth signatoryVerifyProofs
  change (verifyOne env keysets token.toProof >>= fun _ => Outcome.ok PUnit.unit) = _
  cases verifyOne env keysets token.toProof <;> rfl

theorem verifyOne_ne_spent {proof : Proof} :
    verifyOne env keysets proof ≠ .err .tokenAlreadySpent := by
  unfold verifyOne
  cases keysets.info proof.keysetId with
  | none => simp [Outcome.ofOption]
  | some keyset =>
      rw [Outcome.ofOption_some, Outcome.bind_ok, Outcome.ensure, Outcome.ensure]
      split
      · rw [Outcome.bind_ok]
        split <;> simp
      · simp

/-- The checks before the transaction do not know which tokens are spent. -/
theorem checkAuth_ne_spent :
    checkAuth env config keysets (some (.blindAuth ⟨token⟩)) endpoint ≠
      .err .tokenAlreadySpent := by
  unfold checkAuth
  cases isProtected config endpoint with
  | none => simp
  | some required =>
      cases required with
      | clear => simp
      | blind =>
          dsimp only
          rw [verifyBlindAuth_eq]
          cases hone : verifyOne env keysets token.toProof with
          | ok u => simp
          | panic => simp
          | err e =>
              rw [Outcome.bind_err]
              rintro ⟨⟩
              exact verifyOne_ne_spent hone

/-- A token is refused as spent only if it is. -/
theorem verifyAuth_refused
    (h : verifyAuth env config keysets insertFails (some (.blindAuth ⟨token⟩)) endpoint db =
      .err .tokenAlreadySpent) :
    ∃ r ∈ db.rows, r.state = .spent ∧ token.y env = some r.y := by
  rw [verifyAuth, Tx.bind_err, Tx.lift_err] at h
  rcases h with h | ⟨burned, _, hburned, h⟩
  · exact absurd h checkAuth_ne_spent
  · obtain ⟨hcheck, rfl⟩ := Tx.lift_ok.mp hburned
    cases burned with
    | none => cases h
    | some proof =>
        obtain ⟨-, htoken, -⟩ := checkAuth_eq_some hcheck
        obtain rfl : token = proof := by
          cases htoken
          rfl
        dsimp only at h
        rw [checkBlindAuthProofSpendable, Tx.bind_err] at h
        rcases h with h | ⟨_, _, hset, h⟩
        · rw [Tx.ensure, Tx.lift_err, Outcome.ensure] at h
          split at h <;> cases h
        obtain ⟨-, rfl⟩ := Tx.ensure_ok.mp hset
        rw [Tx.bind_err, Tx.lift_err] at h
        rcases h with h | ⟨y, _, hpoint, h⟩
        · cases hy : token.y env <;> rw [hy] at h <;> cases h
        obtain ⟨hy, rfl⟩ := Tx.lift_ok.mp hpoint
        rw [Outcome.ofOption_eq_ok] at hy
        rw [Tx.bind_err] at h
        rcases h with h | ⟨_, added, hadd, h⟩
        · cases h
        rw [Tx.bind_err] at h
        rcases h with h | ⟨before, _, hupdate, h⟩
        · cases h
        rw [Tx.lift_err] at h
        simp only [AuthDb.updateProofState, Tx.bind_ok, Tx.read_ok, Tx.write_ok, Tx.pure_ok]
          at hupdate
        obtain ⟨_, _, ⟨rfl, rfl⟩, _, _, rfl, rfl, rfl⟩ := hupdate
        cases hfind : added.find? y with
        | none =>
            rw [hfind] at h
            cases h
        | some r =>
            obtain ⟨hr, rfl⟩ := Table.find?_eq_some.mp hfind
            have hspent : r.state = .spent := by
              rw [hfind, Option.map_some] at h
              cases hstate : r.state <;> rw [hstate] at h <;> first | rfl | cases h
            exact ⟨r, AuthDb.addProof_spent hadd hr hspent, hspent, hy⟩

end Burning

/-! ## Handing out -/

section Handing

variable {wallet : AuthWallet} {config : AuthConfig} {w : TokenWorld}

/-- What holds in every run. -/
structure TokensKept (wallet : AuthWallet) (w : TokenWorld) : Prop where
  keyed : ∀ info ∈ w.proofs.rows,
    (AuthProof.ofProof info.proof.toProof).y wallet.env = some info.y
  /-- A token that is handed out is not stored. -/
  apart : ∀ info ∈ w.proofs.rows, some info.y ∉ AuthProof.points wallet.env w.handed
  chosen : ∀ token ∈ w.chosen, (∃ info ∈ w.proofs.rows, token.y wallet.env = some info.y) ∨
    token.y wallet.env ∈ AuthProof.points wallet.env w.handed
  sent : (AuthProof.points wallet.env (w.sent ++ w.answers.map Prod.fst)).Subperm
    (AuthProof.points wallet.env w.handed)
  spent : ∀ r ∈ w.authDb.rows, r.state = .spent →
    some r.y ∈ AuthProof.points wallet.env (w.answers.map Prod.fst)
  refused : ∀ answer ∈ w.answers, answer.2 = .err .tokenAlreadySpent → ¬ w.HandedOnce wallet

theorem tokensKept_init : TokensKept wallet TokenWorld.init where
  keyed info h := by cases h
  apart info h := by cases h
  chosen token h := by cases h
  sent := List.Subperm.refl _
  spent r h := by cases h
  refused answer h := by cases h

/-- Writing rows keeps the keys that are there. -/
theorem exists_key_insertAll {t : ProofTable} {added : List ProofInfo} {y : PublicKey}
    (h : ∃ info ∈ t.rows, info.y = y) : ∃ info ∈ (t.insertAll added).rows, info.y = y := by
  induction added generalizing t with
  | nil => exact h
  | cons a rest ih =>
      refine ih ?_
      obtain ⟨info, hinfo, rfl⟩ := h
      by_cases hkey : info.y = a.y
      · exact ⟨a, Table.mem_upsert.mpr (.inl rfl), hkey.symm⟩
      · exact ⟨info, Table.mem_upsert.mpr (.inr ⟨hinfo, hkey⟩), rfl⟩

/-- A stored token is filed under its point. -/
theorem proofInfo_keyed {proof : Proof} {info : ProofInfo} (h : wallet.proofInfo proof = .ok info) :
    (AuthProof.ofProof info.proof.toProof).y wallet.env = some info.y := by
  simp only [AuthWallet.proofInfo, Outcome.bind_eq_ok, Outcome.ofOption_eq_ok,
    Outcome.ok.injEq] at h
  obtain ⟨y, hy, _, -, rfl⟩ := h
  exact hy

/-- The chosen token is stored. -/
theorem exists_stored_of_choose (hkeyed : ∀ info ∈ w.proofs.rows,
      (AuthProof.ofProof info.proof.toProof).y wallet.env = some info.y) {token : AuthProof}
    (h : (wallet.getUnspentAuthProofs w.proofs).head? = some token) :
    ∃ info ∈ w.proofs.rows, token.y wallet.env = some info.y := by
  obtain ⟨info, hinfo, rfl⟩ := List.mem_map.mp (List.mem_of_mem_head? h)
  have hrow := List.mem_of_mem_filter hinfo
  exact ⟨info, hrow, hkeyed info hrow⟩

theorem TokensKept.mintBlindAuth (h : TokensKept wallet w) (proofs : List Proof) :
    TokensKept wallet (w.mintBlindAuth wallet proofs) := by
  unfold TokenWorld.mintBlindAuth
  split
  next infos hinfos =>
    split
    next hfresh =>
      have horigin : ∀ info ∈ (w.proofs.insertAll infos).rows,
          info ∈ infos ∨ info ∈ w.proofs.rows :=
        fun info hinfo => (Table.mem_foldl_upsert hinfo).imp_right And.left
      refine { h with keyed := ?_, apart := ?_, chosen := ?_ }
      · intro info hinfo
        rcases horigin info hinfo with hinfo | hinfo
        · obtain ⟨proof, -, hproof⟩ := Outcome.exists_of_mem_mapM hinfos hinfo
          exact proofInfo_keyed hproof
        · exact h.keyed info hinfo
      · intro info hinfo
        rcases horigin info hinfo with hinfo | hinfo
        · exact hfresh info hinfo
        · exact h.apart info hinfo
      · intro token htoken
        refine (h.chosen token htoken).imp_left ?_
        rintro ⟨info, hinfo, hy⟩
        have hwritten : ∃ info' ∈ (w.proofs.insertAll infos).rows, info'.y = info.y :=
          exists_key_insertAll ⟨info, hinfo, rfl⟩
        obtain ⟨info', hinfo', hkey⟩ := hwritten
        exact ⟨info', hinfo', hkey ▸ hy⟩
    next => exact h
  next => exact h

theorem TokensKept.choose (h : TokensKept wallet w) : TokensKept wallet (w.choose wallet) := by
  unfold TokenWorld.choose
  split
  next token htoken =>
    refine { h with chosen := ?_ }
    intro token' htoken'
    rcases List.mem_cons.mp htoken' with rfl | hmem
    · exact .inl (exists_stored_of_choose h.keyed htoken)
    · exact h.chosen token' hmem
  next => exact h

theorem TokensKept.remove (h : TokensKept wallet w) {token : AuthProof} (fails : Bool) :
    TokensKept wallet (w.remove wallet token fails) := by
  have hdropped : TokensKept wallet { w with chosen := w.chosen.erase token } :=
    { h with chosen := fun token' htoken' => h.chosen token' (List.mem_of_mem_erase htoken') }
  unfold TokenWorld.remove
  split
  next => exact hdropped
  next y hy =>
    split
    next => exact hdropped
    next =>
      have hpoints : AuthProof.points wallet.env (token :: w.handed) =
          some y :: AuthProof.points wallet.env w.handed := by
        rw [AuthProof.points, List.map_cons, hy]
        rfl
      constructor
      · intro info hinfo
        exact h.keyed info (Table.mem_delete.mp hinfo).1
      · intro info hinfo
        obtain ⟨hrow, hne⟩ := Table.mem_delete.mp hinfo
        rw [hpoints, List.mem_cons, not_or, Option.some.injEq]
        exact ⟨by simpa using hne, h.apart info hrow⟩
      · intro token' htoken'
        rw [hpoints, List.mem_cons]
        rcases h.chosen token' (List.mem_of_mem_erase htoken') with ⟨info, hinfo, hy'⟩ | hmem
        · by_cases hinfoy : info.y = y
          · exact .inr (.inl (hinfoy ▸ hy'))
          · exact .inl ⟨info, Table.mem_delete.mpr ⟨hinfo, by simpa using hinfoy⟩, hy'⟩
        · exact .inr (.inr hmem)
      · exact (List.subperm_cons _).mpr h.sent
      · exact h.spent
      · intro answer hanswer hrefused hnodup
        refine h.refused answer hanswer hrefused ?_
        unfold TokenWorld.HandedOnce at hnodup ⊢
        rw [hpoints] at hnodup
        exact hnodup.of_cons

theorem TokensKept.deliver (h : TokensKept wallet w) {token : AuthProof} (htoken : token ∈ w.sent)
    (keysets : Keysets) (endpoint : ProtectedEndpoint) (insertFails : Bool) :
    TokensKept wallet (w.deliver wallet config token keysets endpoint insertFails) := by
  have hperm : (AuthProof.points wallet.env (w.sent ++ w.answers.map Prod.fst)).Perm
      (AuthProof.points wallet.env (w.sent.erase token ++ token :: w.answers.map Prod.fst)) := by
    refine List.Perm.map _ (((List.perm_cons_erase htoken).append_right _).trans ?_)
    exact List.perm_middle.symm
  refine { h with sent := ?_, spent := ?_, refused := ?_ }
  · exact hperm.symm.subperm.trans h.sent
  · intro r hr hspent
    change r ∈ (Tx.commit (verifyAuth wallet.env config keysets insertFails
      (some (.blindAuth ⟨token⟩)) endpoint) w.authDb).2.rows at hr
    change some r.y ∈ token.y wallet.env :: AuthProof.points wallet.env (w.answers.map Prod.fst)
    rw [List.mem_cons]
    rcases Tx.commit_cases (verifyAuth wallet.env config keysets insertFails
      (some (.blindAuth ⟨token⟩)) endpoint) w.authDb with ⟨u, db', hok, hcommit⟩ | ⟨-, hcommit, -⟩
    · rw [hcommit] at hr
      rcases verifyAuth_spent hok hr hspent with hr | hy
      · exact .inr (h.spent r hr hspent)
      · exact .inl hy.symm
    · rw [hcommit] at hr
      exact .inr (h.spent r hr hspent)
  · intro answer hanswer hrefused
    rcases List.mem_cons.mp hanswer with rfl | hanswer
    · have herr : verifyAuth wallet.env config keysets insertFails (some (.blindAuth ⟨token⟩))
          endpoint w.authDb = .err .tokenAlreadySpent := by
        unfold Tx.commit at hrefused
        split at hrefused
        next => cases hrefused
        next e he =>
          cases hrefused
          exact he
        next => cases hrefused
      obtain ⟨r, hr, hspent, hy⟩ := verifyAuth_refused herr
      intro hnodup
      obtain ⟨points, hsame, hsub⟩ := h.sent
      have hapart := (hsame.nodup_iff).mp (hnodup.sublist hsub)
      rw [AuthProof.points, List.map_append, List.nodup_append] at hapart
      -- The token is on its way, and an answer to it has come.
      exact hapart.2.2 _ (List.mem_map_of_mem htoken) _ (h.spent r hr hspent) hy
    · exact h.refused answer hanswer hrefused

theorem TokensKept.step (h : TokensKept wallet w) (a : TokenAction) :
    TokensKept wallet (w.step wallet config a) := by
  cases a with
  | mintBlindAuth proofs => exact h.mintBlindAuth proofs
  | choose => exact h.choose
  | remove token fails =>
      simp only [TokenWorld.step]
      split
      next => exact h.remove fails
      next => exact h
  | deliver token keysets endpoint insertFails =>
      simp only [TokenWorld.step]
      split
      next htoken => exact h.deliver htoken keysets endpoint insertFails
      next => exact h
  | restart =>
      refine { h with chosen := ?_, sent := ?_ }
      · intro token htoken
        cases htoken
      · exact ((List.sublist_append_right w.sent _).map _).subperm.trans h.sent

theorem TokensKept.run (h : TokensKept wallet w) (actions : List TokenAction) :
    TokensKept wallet (run (TokenWorld.step wallet config) w actions) :=
  invariant_run (fun w a (hw : TokensKept wallet w) => hw.step a) h actions

/-- A chosen token is stored exactly if it has not been handed out. -/
theorem TokensKept.stored_iff (h : TokensKept wallet w) {token : AuthProof} {y : PublicKey}
    (htoken : token ∈ w.chosen) (hy : token.y wallet.env = some y) :
    (∃ info ∈ w.proofs.rows, info.y = y) ↔ some y ∉ AuthProof.points wallet.env w.handed := by
  constructor
  · rintro ⟨info, hinfo, rfl⟩
    exact h.apart info hinfo
  · intro hnot
    rcases h.chosen token htoken with ⟨info, hinfo, hinfoy⟩ | hhanded
    · exact ⟨info, hinfo, Option.some.inj (hinfoy.symm.trans hy)⟩
    · exact absurd (hy ▸ hhanded) hnot

/-- A step hands no token out twice exactly if a request that removes one finds it stored. -/
theorem handedOnce_step (h : TokensKept wallet w) (a : TokenAction) :
    (w.step wallet config a).HandedOnce wallet ↔
      w.HandedOnce wallet ∧ RemovesStored wallet w a := by
  have hsame {w' : TokenWorld} (hhanded : w'.handed = w.handed)
      (hstored : RemovesStored wallet w a) :
      w'.HandedOnce wallet ↔ w.HandedOnce wallet ∧ RemovesStored wallet w a := by
    rw [TokenWorld.HandedOnce, hhanded]
    exact (and_iff_left hstored).symm
  cases a with
  | mintBlindAuth proofs =>
      refine hsame ?_ trivial
      change (w.mintBlindAuth wallet proofs).handed = w.handed
      unfold TokenWorld.mintBlindAuth
      split
      next => split <;> rfl
      next => rfl
  | choose =>
      refine hsame ?_ trivial
      change (w.choose wallet).handed = w.handed
      unfold TokenWorld.choose
      split <;> rfl
  | remove token fails =>
      simp only [TokenWorld.step]
      split
      next htoken =>
        unfold TokenWorld.remove
        cases hy : token.y wallet.env with
        | none =>
            refine hsame rfl fun _ _ y hsome => ?_
            cases hy.symm.trans hsome
        | some y =>
            cases fails with
            | true => exact hsame rfl fun _ hfails => by cases hfails
            | false =>
                have hstored : RemovesStored wallet w (.remove token false) ↔
                    some y ∉ AuthProof.points wallet.env w.handed := by
                  rw [← h.stored_iff htoken hy]
                  constructor
                  · intro hremoves
                    exact hremoves htoken rfl y hy
                  · intro hstored _ _ y' hy'
                    cases hy.symm.trans hy'
                    exact hstored
                rw [hstored, and_comm]
                change (AuthProof.points wallet.env (token :: w.handed)).Nodup ↔ _
                rw [AuthProof.points, List.map_cons, hy, List.nodup_cons]
                rfl
      next htoken => exact hsame rfl fun hmem => absurd hmem htoken
  | deliver token keysets endpoint insertFails =>
      refine hsame ?_ trivial
      simp only [TokenWorld.step]
      split <;> rfl
  | restart => exact hsame rfl trivial

/-- At most one request has chosen a token, and it is stored. -/
structure ChosenStored (wallet : AuthWallet) (w : TokenWorld) : Prop where
  kept : TokensKept wallet w
  single : w.chosen.length ≤ 1
  stored : ∀ token ∈ w.chosen, ∃ info ∈ w.proofs.rows, token.y wallet.env = some info.y

theorem ChosenStored.mintBlindAuth (h : ChosenStored wallet w) (proofs : List Proof) :
    ChosenStored wallet (w.mintBlindAuth wallet proofs) := by
  refine ⟨h.kept.mintBlindAuth proofs, ?_, ?_⟩ <;> simp only [TokenWorld.mintBlindAuth]
  · split
    next => split <;> exact h.single
    next => exact h.single
  · split
    next infos _ =>
      split
      next =>
        intro token htoken
        obtain ⟨info, hinfo, hy⟩ := h.stored token htoken
        have hwritten : ∃ info' ∈ (w.proofs.insertAll infos).rows, info'.y = info.y :=
          exists_key_insertAll ⟨info, hinfo, rfl⟩
        obtain ⟨info', hinfo', hkey⟩ := hwritten
        exact ⟨info', hinfo', hkey ▸ hy⟩
      next => exact h.stored
    next => exact h.stored

theorem ChosenStored.choose (h : ChosenStored wallet w) (hnone : w.chosen = []) :
    ChosenStored wallet (w.choose wallet) := by
  refine ⟨h.kept.choose, ?_, ?_⟩ <;> simp only [TokenWorld.choose]
  · split <;> simp [hnone]
  · split
    next token htoken =>
      intro token' htoken'
      rw [hnone, List.mem_singleton] at htoken'
      rw [htoken']
      exact exists_stored_of_choose h.kept.keyed htoken
    next => exact h.stored

/-- The request that removes its token was the only one. -/
theorem ChosenStored.remove (h : ChosenStored wallet w) {token : AuthProof}
    (htoken : token ∈ w.chosen) (fails : Bool) :
    ChosenStored wallet (w.remove wallet token fails) := by
  have herase : w.chosen.erase token = [] := by
    have hlength := List.length_erase_of_mem htoken
    have hsingle := h.single
    exact List.eq_nil_of_length_eq_zero (by omega)
  have hnone : (w.remove wallet token fails).chosen = [] := by
    unfold TokenWorld.remove
    split
    next => exact herase
    next => split <;> exact herase
  refine ⟨h.kept.remove fails, by simp [hnone], fun token' htoken' => ?_⟩
  rw [hnone] at htoken'
  cases htoken'

theorem ChosenStored.step (h : ChosenStored wallet w) (a : TokenAction) (ha : OneAtATime w a) :
    ChosenStored wallet (w.step wallet config a) := by
  have hkept : TokensKept wallet (w.step wallet config a) := h.kept.step a
  cases a with
  | mintBlindAuth proofs => exact h.mintBlindAuth proofs
  | choose => exact h.choose ha
  | remove token fails =>
      by_cases htoken : token ∈ w.chosen
      · rw [show w.step wallet config (.remove token fails) = w.remove wallet token fails from
          if_pos htoken]
        exact h.remove htoken fails
      · rw [show w.step wallet config (.remove token fails) = w from if_neg htoken]
        exact h
  | deliver token keysets endpoint insertFails =>
      refine ⟨hkept, ?_, ?_⟩ <;> simp only [TokenWorld.step]
      · split <;> exact h.single
      · split <;> exact h.stored
  | restart =>
      refine ⟨hkept, Nat.zero_le _, fun token htoken => ?_⟩
      cases htoken

/-- Where requests take their tokens one at a time, each removes one that is stored. -/
theorem ChosenStored.removesStored (h : ChosenStored wallet w) (a : TokenAction) :
    RemovesStored wallet w a := by
  cases a with
  | remove token fails =>
      intro htoken _ y hy
      obtain ⟨info, hinfo, hinfoy⟩ := h.stored token htoken
      exact ⟨info, hinfo, Option.some.inj (hinfoy.symm.trans hy)⟩
  | _ => trivial

/-- Two requests that read the tokens before one of them removes its own. -/
def raceFor (token : AuthProof) : List TokenAction :=
  [.choose, .choose, .remove token false, .remove token false]

/-- They are handed the same token. -/
theorem not_handedOnce_race (h : TokensKept wallet w) {token : AuthProof}
    (hfirst : (wallet.getUnspentAuthProofs w.proofs).head? = some token) :
    ¬ (run (TokenWorld.step wallet config) w (raceFor token)).HandedOnce wallet := by
  obtain ⟨info, hinfo, hy⟩ := exists_stored_of_choose h.keyed hfirst
  have hread : run (TokenWorld.step wallet config) w [.choose, .choose] =
      { w with chosen := token :: token :: w.chosen } := by
    simp only [run_cons, run_nil, TokenWorld.step, TokenWorld.choose, hfirst]
  have hremove : run (TokenWorld.step wallet config) w
      [.choose, .choose, .remove token false] =
        { w with
          proofs := w.proofs.removeAll [info.y]
          chosen := token :: w.chosen
          handed := token :: w.handed
          sent := token :: w.sent } := by
    rw [show [TokenAction.choose, .choose, .remove token false] =
      [.choose, .choose] ++ [.remove token false] from rfl, run_append, hread]
    simp [TokenWorld.step, TokenWorld.remove, hy]
  have hkept : TokensKept wallet (run (TokenWorld.step wallet config) w
      [.choose, .choose, .remove token false]) := h.run _
  rw [raceFor, show [TokenAction.choose, .choose, .remove token false, .remove token false] =
    [.choose, .choose, .remove token false] ++ [.remove token false] from rfl, run_append]
  intro hnodup
  have hlast : (TokenWorld.step wallet config (run (TokenWorld.step wallet config) w
      [.choose, .choose, .remove token false]) (.remove token false)).HandedOnce wallet := hnodup
  obtain ⟨-, hstored⟩ := (handedOnce_step hkept _).mp hlast
  rw [hremove] at hstored
  obtain ⟨info', hinfo', hkey⟩ := hstored List.mem_cons_self rfl info.y hy
  simpa [hkey] using (Table.mem_delete.mp hinfo').2

end Handing

/-- In every run of a wallet and the mint, no token is handed out twice exactly if each request that
removes one finds it stored, which holds if requests take their tokens one at a time. Where none is
handed out twice, none is refused as spent. Two requests that read the tokens of a wallet before one
of them removes its own are handed the same token. -/
theorem auth_tokens_handed_once (wallet : AuthWallet) (config : AuthConfig)
    (actions : List TokenAction) :
    ((TokenWorld.reached wallet config actions).HandedOnce wallet ↔
        Along (TokenWorld.step wallet config) (RemovesStored wallet) TokenWorld.init actions) ∧
      (Along (TokenWorld.step wallet config) OneAtATime TokenWorld.init actions →
        (TokenWorld.reached wallet config actions).HandedOnce wallet) ∧
      ((TokenWorld.reached wallet config actions).HandedOnce wallet →
        ∀ answer ∈ (TokenWorld.reached wallet config actions).answers,
          answer.2 ≠ .err .tokenAlreadySpent) ∧
      ∀ token, (wallet.getUnspentAuthProofs
          (TokenWorld.reached wallet config actions).proofs).head? = some token →
        ¬ (TokenWorld.reached wallet config (actions ++ raceFor token)).HandedOnce wallet := by
  have hkept : TokensKept wallet (run (TokenWorld.step wallet config) TokenWorld.init actions) :=
    tokensKept_init.run actions
  have honce : (TokenWorld.reached wallet config actions).HandedOnce wallet ↔
      Along (TokenWorld.step wallet config) (RemovesStored wallet) TokenWorld.init actions := by
    rw [TokenWorld.reached,
      run_iff_along (fun w a hw => TokensKept.step hw a) (fun w a hw => handedOnce_step hw a)
        tokensKept_init]
    exact and_iff_right List.nodup_nil
  have hinit : ChosenStored wallet TokenWorld.init := by
    refine ⟨tokensKept_init, Nat.zero_le _, fun token htoken => ?_⟩
    cases htoken
  refine ⟨honce, fun hone => honce.mpr ?_, fun hnodup answer hanswer hrefused => ?_,
    fun token hfirst => ?_⟩
  · exact along_of_invariant (fun w a hw ha => ChosenStored.step hw a ha)
      (fun w a hw _ => ChosenStored.removesStored hw a) hinit hone
  · exact hkept.refused answer hanswer hrefused hnodup
  · rw [TokenWorld.reached, run_append]
    exact not_handedOnce_race hkept hfirst

end Cdk
