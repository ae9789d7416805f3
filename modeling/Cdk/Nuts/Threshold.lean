import Cdk.Nuts.Texts
import Cdk.Nuts.P2pk
import Mathlib.Data.Finset.Card

/-!
# Thresholds of P2PK proofs

What the P2PK check of a proof decides. Before the locktime its nested loops
over signatures and listed keys pass exactly when all signatures parse, no
listed entry is met twice and enough entries are met. The entries are points,
while a signature only knows an `x` coordinate: a threshold can be undercut by
two listed points that differ in their parity, and a listed point that is
repeated makes its own signature a duplicate.
-/

namespace Cdk

open Lib

/-- The texts are the signatures, all of them parsed. -/
def Parsed (texts : List String) (sigs : List Signature) : Prop :=
  texts.map Signature.fromStr = sigs.map some

/-- Some text is a signature that is valid for the key. -/
def Signed (env : Env) (msg : List UInt8) (texts : List String) (key : PublicKey) : Prop :=
  ∃ text ∈ texts, ∃ sig, Signature.fromStr text = some sig ∧ key.verify env msg sig = true

section Texts

variable {env : Env} {msg : List UInt8} {texts : List String} {sigs : List Signature}

theorem Parsed.mapM {ε : Type} {e : ε} :
    (texts.mapM fun text => Outcome.ofOption e (Signature.fromStr text)) = .ok sigs ↔
      Parsed texts sigs := by
  unfold Parsed
  induction texts generalizing sigs with
  | nil => cases sigs <;> simp
  | cons text rest ih =>
      rw [List.mapM_cons]
      simp only [Outcome.bind_eq_ok, Outcome.ofOption_eq_ok, Outcome.pure_eq, Outcome.ok.injEq]
      cases sigs with
      | nil => simp
      | cons sig sigs =>
          simp only [List.map_cons, List.cons.injEq]
          constructor
          · rintro ⟨_, hsig, _, hrest, rfl, rfl⟩
            exact ⟨hsig, ih.mp hrest⟩
          · rintro ⟨hsig, hrest⟩
            exact ⟨sig, hsig, sigs, ih.mpr hrest, rfl, rfl⟩

theorem Parsed.toText (sigs : List Signature) : Parsed (sigs.map Signature.toText) sigs := by
  unfold Parsed
  rw [List.map_map]
  apply List.map_congr_left
  intro sig _
  rw [Function.comp_apply, Signature.fromStr_toText]

theorem Parsed.unique {sigs' : List Signature} (h : Parsed texts sigs) (h' : Parsed texts sigs') :
    sigs = sigs' :=
  List.map_injective_iff.mpr (Option.some_injective _) (h.symm.trans h')

theorem Parsed.append {texts' : List String} {sigs' : List Signature} (h : Parsed texts sigs)
    (h' : Parsed texts' sigs') : Parsed (texts ++ texts') (sigs ++ sigs') := by
  unfold Parsed at *
  rw [List.map_append, List.map_append, h, h']

/-- The texts of signatures are read back. -/
theorem exists_parsed_iff {P : List Signature → Prop} :
    (∃ texts all, some (sigs.map Signature.toText) = some texts ∧ Parsed texts all ∧ P all) ↔
      P sigs := by
  constructor
  · rintro ⟨_, all, ⟨⟩, hall, hP⟩
    rwa [hall.unique (Parsed.toText sigs)] at hP
  · intro hP
    exact ⟨_, _, rfl, Parsed.toText sigs, hP⟩

/-- Texts that are followed by parsed ones are parsed apart from them. -/
theorem Parsed.append_iff {texts' : List String} {new all : List Signature}
    (h : Parsed texts' new) :
    Parsed (texts ++ texts') all ↔ ∃ sigs, Parsed texts sigs ∧ all = sigs ++ new := by
  constructor
  · intro hall
    have hsplit : all.map some = texts.map Signature.fromStr ++ texts'.map Signature.fromStr := by
      rw [← List.map_append]
      exact hall.symm
    obtain ⟨sigs, rest, rfl, hsigs, hrest⟩ := List.map_eq_append_iff.mp hsplit
    have hparsed : Parsed texts' rest := hrest.symm
    exact ⟨sigs, hsigs.symm, by rw [hparsed.unique h]⟩
  · rintro ⟨sigs, hsigs, rfl⟩
    exact hsigs.append h

theorem Parsed.signed (h : Parsed texts sigs) {key : PublicKey} :
    Signed env msg texts key ↔ ∃ sig ∈ sigs, key.verify env msg sig = true := by
  have hmem : ∀ sig, (∃ text ∈ texts, Signature.fromStr text = some sig) ↔ sig ∈ sigs := by
    intro sig
    have : some sig ∈ texts.map Signature.fromStr ↔ some sig ∈ sigs.map some := by
      rw [show texts.map Signature.fromStr = sigs.map some from h]
    simpa using this
  constructor
  · rintro ⟨text, htext, sig, hparse, hv⟩
    exact ⟨sig, (hmem sig).mp ⟨text, htext, hparse⟩, hv⟩
  · rintro ⟨sig, hsig, hv⟩
    obtain ⟨text, htext, hparse⟩ := (hmem sig).mpr hsig
    exact ⟨text, htext, sig, hparse, hv⟩

end Texts

/-! ## The check before the locktime -/

section BeforeLocktime

variable {env : Env} {msg : List UInt8} {pubkeys : List PublicKey}

/-- The entries met by one more signature. -/
theorem signedKeys_cons_perm (sig : Signature) (sigs : List Signature) :
    (signedKeys env msg pubkeys (sig :: sigs)).Perm
      ((pubkeys.filter fun key => key.verify env msg sig) ++
        signedKeys env msg pubkeys sigs) := by
  induction pubkeys with
  | nil => exact .nil
  | cons key rest ih =>
      have hcons : ∀ sigs, signedKeys env msg (key :: rest) sigs =
          (sigs.filter (key.verify env msg)).map (fun _ => key) ++
            signedKeys env msg rest sigs := fun _ => rfl
      rw [hcons, hcons, List.filter_cons, List.filter_cons]
      have hswap := (List.perm_append_comm_assoc
        ((sigs.filter (key.verify env msg)).map fun _ => key)
        (rest.filter fun key => key.verify env msg sig) (signedKeys env msg rest sigs))
      by_cases hv : key.verify env msg sig = true
      · rw [if_pos hv, if_pos hv, List.map_cons, List.cons_append, List.cons_append]
        exact ((ih.append_left _).trans hswap).cons key
      · rw [if_neg hv, if_neg hv]
        exact (ih.append_left _).trans hswap

/-- The entries met by the signatures of two lists. -/
theorem signedKeys_append_perm (sigs sigs' : List Signature) :
    (signedKeys env msg pubkeys (sigs ++ sigs')).Perm
      (signedKeys env msg pubkeys sigs ++ signedKeys env msg pubkeys sigs') := by
  induction sigs with
  | nil =>
      have hnil : signedKeys env msg pubkeys [] = [] := by simp [signedKeys]
      rw [hnil, List.nil_append, List.nil_append]
  | cons sig rest ih =>
      rw [List.cons_append]
      refine (signedKeys_cons_perm sig (rest ++ sigs')).trans ?_
      refine (ih.append_left _).trans ?_
      rw [← List.append_assoc]
      exact (signedKeys_cons_perm sig rest).symm.append_right _

/-- One signature against the listed keys. -/
theorem foldlM_pubkeys {sig : Signature} {verified result : List PublicKey}
    (hnd : verified.Nodup) :
    pubkeys.foldlM (fun verified key => countSignature env msg verified key sig) verified =
        .ok result ↔
      (verified ++ pubkeys.filter fun key => key.verify env msg sig).Nodup ∧
        result = verified ++ pubkeys.filter fun key => key.verify env msg sig := by
  induction pubkeys generalizing verified with
  | nil => simp [hnd, eq_comm]
  | cons key rest ih =>
      rw [List.foldlM_cons, Outcome.bind_eq_ok]
      rw [List.filter_cons]
      by_cases hv : key.verify env msg sig = true
      · rw [if_pos hv]
        by_cases hm : key ∈ verified
        · constructor
          · rintro ⟨mid, hmid, -⟩
            simp [countSignature_eq_ok, hv, hm] at hmid
          · rintro ⟨hdup, -⟩
            exact absurd rfl ((List.nodup_append.mp hdup).2.2 key hm key List.mem_cons_self)
        · have hnd' : (verified ++ [key]).Nodup := List.nodup_append.mpr
            ⟨hnd, List.nodup_singleton key, by
              intro a ha b hb hab
              rw [List.mem_singleton] at hb
              exact hm (by rw [← hb, ← hab]; exact ha)⟩
          simp [countSignature_eq_ok, hv, hm, ih hnd']
      · rw [if_neg hv]
        simp [countSignature_eq_ok, hv, ih hnd]

/-- All signatures against the listed keys, of which there is one. -/
theorem foldlM_texts (hne : pubkeys ≠ []) {texts : List String} {verified result : List PublicKey}
    (hnd : verified.Nodup) :
    texts.foldlM (fun verified text =>
        pubkeys.foldlM (fun verified key => do
          let sig ← Outcome.ofOption Nut11Error.secp256k1 (Signature.fromStr text)
          countSignature env msg verified key sig) verified) verified = .ok result ↔
      ∃ sigs, Parsed texts sigs ∧
        (verified ++ sigs.flatMap fun sig => pubkeys.filter fun key =>
          key.verify env msg sig).Nodup ∧
        result = verified ++ sigs.flatMap fun sig => pubkeys.filter fun key =>
          key.verify env msg sig := by
  induction texts generalizing verified with
  | nil =>
      constructor
      · intro h
        cases h
        exact ⟨[], rfl, by simpa using hnd, by simp⟩
      · rintro ⟨sigs, hp, -, rfl⟩
        have : sigs = [] := by simpa [Parsed] using hp.symm
        simp [this]
  | cons text rest ih =>
      rw [List.foldlM_cons, Outcome.bind_eq_ok]
      cases htext : Signature.fromStr text with
      | none =>
          -- the first listed key already fails to parse the text
          obtain ⟨key, keys, rfl⟩ := List.exists_cons_of_ne_nil hne
          constructor
          · rintro ⟨mid, hmid, -⟩
            simp [List.foldlM_cons, Outcome.ofOption] at hmid
          · rintro ⟨sigs, hp, -⟩
            cases sigs <;> simp [Parsed, htext] at hp
      | some sig =>
          simp only [Outcome.ofOption, Outcome.bind_ok, foldlM_pubkeys hnd]
          constructor
          · rintro ⟨mid, ⟨hmid, rfl⟩, hrest⟩
            obtain ⟨sigs, hp, hall, hres⟩ := (ih hmid).mp hrest
            refine ⟨sig :: sigs, ?_, ?_, ?_⟩
            · rw [Parsed, List.map_cons, List.map_cons, htext, hp]
            · simpa [List.append_assoc] using hall
            · simpa [List.append_assoc] using hres
          · rintro ⟨sigs, hp, hall, hres⟩
            cases sigs with
            | nil => simp [Parsed] at hp
            | cons sig' sigs =>
                rw [Parsed, List.map_cons, List.map_cons, List.cons.injEq, htext,
                  Option.some.injEq] at hp
                obtain ⟨rfl, hp⟩ := hp
                rw [List.flatMap_cons, ← List.append_assoc] at hall hres
                have hmid := (List.nodup_append.mp hall).1
                exact ⟨_, ⟨hmid, rfl⟩, (ih hmid).mpr ⟨sigs, hp, hall, hres⟩⟩

/-- The order in which the loops nest does not matter. -/
theorem flatMap_filter_perm (env : Env) (msg : List UInt8) (pubkeys : List PublicKey)
    (sigs : List Signature) :
    (sigs.flatMap fun sig => pubkeys.filter fun key => key.verify env msg sig).Perm
      (signedKeys env msg pubkeys sigs) := by
  induction sigs with
  | nil =>
      have : signedKeys env msg pubkeys [] = [] := by simp [signedKeys]
      rw [this]
      exact .nil
  | cons sig rest ih =>
      rw [List.flatMap_cons]
      exact (ih.append_left _).trans (signedKeys_cons_perm sig rest).symm

/-- The check passes exactly when all texts parse, no entry is met twice and enough are met. -/
theorem verifyThreshold_eq_ok (hne : pubkeys ≠ []) {texts : List String} {needed : Nat} :
    verifyThreshold env msg pubkeys texts needed = .ok () ↔
      ∃ sigs, Parsed texts sigs ∧ (signedKeys env msg pubkeys sigs).Nodup ∧
        needed ≤ (signedKeys env msg pubkeys sigs).length := by
  unfold verifyThreshold
  rw [Outcome.bind_eq_ok]
  simp only [foldlM_texts hne List.nodup_nil, List.nil_append, Outcome.ensure_eq_ok,
    decide_eq_true_eq]
  constructor
  · rintro ⟨verified, ⟨sigs, hp, hnd, rfl⟩, hle⟩
    have hperm := flatMap_filter_perm env msg pubkeys sigs
    exact ⟨sigs, hp, hperm.nodup_iff.mp hnd, hperm.length_eq ▸ hle⟩
  · rintro ⟨sigs, hp, hnd, hle⟩
    have hperm := flatMap_filter_perm env msg pubkeys sigs
    exact ⟨_, ⟨sigs, hp, hperm.nodup_iff.mpr hnd, rfl⟩, hperm.length_eq ▸ hle⟩

end BeforeLocktime

/-! ## The refund path -/

section Refund

variable {env : Env} {msg : List UInt8} {needed : Nat} {keys : List PublicKey}

/-- The keys collected so far are distinct refund keys with a valid signature. -/
def Collected (env : Env) (msg : List UInt8) (refundKeys : List PublicKey) (texts : List String)
    (valid : List PublicKey) : Prop :=
  valid.Nodup ∧ ∀ key ∈ valid, key ∈ refundKeys ∧ Signed env msg texts key

theorem Collected.insert {refundKeys valid : List PublicKey} {texts : List String}
    {key : PublicKey} (h : Collected env msg refundKeys texts valid) (hkey : key ∈ refundKeys)
    (hs : Signed env msg texts key) : Collected env msg refundKeys texts (valid.insert key) := by
  refine ⟨h.1.insert, ?_⟩
  intro k hk
  rcases List.mem_insert_iff.mp hk with rfl | hk
  · exact ⟨hkey, hs⟩
  · exact h.2 k hk

/-- One signature keeps the collected keys, and ends the loop only with enough of them. -/
theorem refundKeysLoop_collected (needed : Nat) {refundKeys valid : List PublicKey}
    {texts : List String} {text : String} {sig : Signature} (htext : text ∈ texts)
    (hsig : Signature.fromStr text = some sig) (hsub : keys ⊆ refundKeys)
    (h : Collected env msg refundKeys texts valid) :
    Collected env msg refundKeys texts (refundKeysLoop env msg needed sig keys valid).1 ∧
      ((refundKeysLoop env msg needed sig keys valid).2 = true →
        needed ≤ (refundKeysLoop env msg needed sig keys valid).1.length) := by
  induction keys generalizing valid with
  | nil => exact ⟨h, by simp [refundKeysLoop]⟩
  | cons key rest ih =>
      have hrest : rest ⊆ refundKeys := fun k hk => hsub (List.mem_cons_of_mem _ hk)
      unfold refundKeysLoop
      by_cases hv : key.verify env msg sig = true
      · have hins := h.insert (hsub List.mem_cons_self) ⟨text, htext, sig, hsig, hv⟩
        rw [if_pos hv]
        dsimp only
        split
        next hle => exact ⟨hins, fun _ => hle⟩
        next => exact ih hrest hins
      · rw [if_neg hv]
        exact ih hrest h

/-- The refund path succeeds only with enough distinct refund keys. -/
theorem refundLoop_ok {refundKeys valid : List PublicKey} {texts rest : List String}
    (hsub : rest ⊆ texts) (h : Collected env msg refundKeys texts valid)
    (hok : refundLoop env msg needed refundKeys rest valid = .ok ()) :
    ∃ valid, Collected env msg refundKeys texts valid ∧ needed ≤ valid.length := by
  induction rest generalizing valid with
  | nil => cases hok
  | cons text rest ih =>
      unfold refundLoop at hok
      cases hsig : Signature.fromStr text with
      | none => simp [hsig] at hok
      | some sig =>
          have hstep := refundKeysLoop_collected needed
            (hsub List.mem_cons_self) hsig (List.Subset.refl refundKeys) h
          simp only [hsig] at hok
          split at hok
          next v heq =>
            rw [heq] at hstep
            exact ⟨v, hstep.1, hstep.2 rfl⟩
          next v heq =>
            rw [heq] at hstep
            exact ih (fun t ht => hsub (List.mem_cons_of_mem _ ht)) hstep.1 hok

/-- A single signature ends the loop once enough points share its `x` coordinates. -/
theorem refundKeysLoop_done {sig : Signature} {valid : List PublicKey} (hnd : valid.Nodup)
    (hlt : valid.length < needed)
    (hle : needed ≤ (valid.toFinset ∪
      (keys.filter fun key => key.verify env msg sig).toFinset).card) :
    (refundKeysLoop env msg needed sig keys valid).2 = true := by
  induction keys generalizing valid with
  | nil =>
      have hcard := List.toFinset_card_of_nodup hnd
      simp only [List.filter_nil, List.toFinset_nil, Finset.union_empty, hcard] at hle
      omega
  | cons key rest ih =>
      rw [List.filter_cons] at hle
      unfold refundKeysLoop
      by_cases hv : key.verify env msg sig = true
      · rw [if_pos hv] at hle ⊢
        dsimp only
        split
        next => rfl
        next hnot =>
          apply ih hnd.insert (Nat.lt_of_not_le hnot)
          have hset : (valid.insert key).toFinset = insert key valid.toFinset := by
            ext k
            simp [List.mem_insert_iff]
          rwa [hset, Finset.insert_union, ← Finset.union_insert, ← List.toFinset_cons]
      · rw [if_neg hv] at hle ⊢
        exact ih hnd hlt hle

end Refund

/-! ## The whole check -/

/-- The locktime has passed. -/
def Expired (now : Nat) (c : Conditions) : Prop :=
  ∃ locktime, c.locktime = some locktime ∧ locktime ≤ now

/-- A P2PK secret with its data key and its conditions. -/
def IsP2pk (env : Env) (text : String) (key : PublicKey) (c : Conditions) : Prop :=
  ∃ secret, env.parseSecret text = some secret ∧ secret.kind = .p2pk ∧
    env.parsePublicKey secret.secretData.data = some key ∧
    Conditions.tryFrom env (secret.secretData.tags.getD []) = .ok c

/-- The keys the check goes through before the locktime. -/
def listedKeys (key : PublicKey) (c : Conditions) : List PublicKey := c.pubkeys.getD [] ++ [key]

theorem listedKeys_ne_nil (key : PublicKey) (c : Conditions) : listedKeys key c ≠ [] := by
  simp [listedKeys]

theorem verifyP2pk_eq_ok {env : Env} {now : Nat} {proof : Proof} {key : PublicKey} {c : Conditions}
    (h : IsP2pk env proof.secret key c) :
    verifyP2pk env now proof = .ok () ↔
      ∃ texts, proof.witness.bind Witness.signatures = some texts ∧
        ((Expired now c ∧ (c.refundKeys = none ∨ ∃ refundKeys, c.refundKeys = some refundKeys ∧
            refundLoop env (utf8 proof.secret) (c.numSigsRefund.getD 1) refundKeys texts [] =
              .ok ())) ∨
          (¬ Expired now c ∧
            verifyThreshold env (utf8 proof.secret) (listedKeys key c) texts (c.numSigs.getD 1) =
              .ok ())) := by
  obtain ⟨secret, hs, hkind, hkey, hc⟩ := h
  simp only [verifyP2pk, hs, hc, hkind, hkey, Outcome.ofOption_some, Outcome.bind_ok]
  rw [Outcome.bind_eq_ok]
  simp only [Outcome.ofOption_eq_ok]
  apply exists_congr
  intro texts
  apply and_congr_right'
  by_cases hexp : Expired now c
  · obtain ⟨locktime, hl, hle⟩ := id hexp
    have hfilter : c.locktime.filter (fun locktime => locktime ≤ now) = some locktime := by
      simp [hl, hle]
    cases hr : c.refundKeys with
    | none => simp [hfilter, hexp]
    | some refundKeys => simp [hfilter, hexp]
  · have hfilter : c.locktime.filter (fun locktime => locktime ≤ now) = none := by
      rw [Option.filter_eq_none_iff]
      intro locktime hl hle
      exact hexp ⟨locktime, hl, by simpa using hle⟩
    simp [hfilter, hexp, listedKeys]

/-- Before the locktime the signatures count against the listed keys. -/
theorem verifyP2pk_before {env : Env} {now : Nat} {proof : Proof} {key : PublicKey}
    {c : Conditions} (h : IsP2pk env proof.secret key c) (hexp : ¬ Expired now c) :
    verifyP2pk env now proof = .ok () ↔
      ∃ texts sigs, proof.witness.bind Witness.signatures = some texts ∧ Parsed texts sigs ∧
        (signedKeys env (utf8 proof.secret) (listedKeys key c) sigs).Nodup ∧
        c.numSigs.getD 1 ≤
          (signedKeys env (utf8 proof.secret) (listedKeys key c) sigs).length := by
  rw [verifyP2pk_eq_ok h]
  simp only [verifyThreshold_eq_ok (listedKeys_ne_nil key c)]
  constructor
  · rintro ⟨texts, htexts, ⟨hexp', -⟩ | ⟨-, sigs, hsigs, hnd, hle⟩⟩
    · exact absurd hexp' hexp
    · exact ⟨texts, sigs, htexts, hsigs, hnd, hle⟩
  · rintro ⟨texts, sigs, htexts, hsigs, hnd, hle⟩
    exact ⟨texts, htexts, .inr ⟨hexp, sigs, hsigs, hnd, hle⟩⟩

/-! ## Soundness of the thresholds -/

/-- The signature texts of a proof. -/
def Proof.signatureTexts (proof : Proof) : List String :=
  (proof.witness.bind Witness.signatures).getD []

/-- At least `n` of the keys, of pairwise different `x` coordinates, have a valid signature. -/
def DistinctSigners (env : Env) (msg : List UInt8) (texts : List String) (keys : List PublicKey)
    (n : Nat) : Prop :=
  ∃ signers : List PublicKey, (signers.map PublicKey.x).Nodup ∧ n ≤ signers.length ∧
    ∀ key ∈ signers, key ∈ keys ∧ Signed env msg texts key

/-- A proof that passes was unlocked by time or by as many signers as the threshold says. -/
def ThresholdSound (env : Env) (now : Nat) (key : PublicKey) (c : Conditions) (proof : Proof) :
    Prop :=
  verifyP2pk env now proof = .ok () →
    (Expired now c ∧ c.refundKeys = none) ∨
    (Expired now c ∧ ∃ refundKeys, c.refundKeys = some refundKeys ∧
      DistinctSigners env (utf8 proof.secret) proof.signatureTexts refundKeys
        (c.numSigsRefund.getD 1)) ∨
    DistinctSigners env (utf8 proof.secret) proof.signatureTexts (listedKeys key c)
      (c.numSigs.getD 1)

/-- The listed keys with one of the `x` coordinates. -/
def keysAt (xs : List (BitVec 256)) (keys : List PublicKey) : List PublicKey :=
  keys.filter fun key => key.x ∈ xs

/-- Fewer `x` coordinates than the threshold carry as many listed points as the threshold. -/
def Undercut (now : Nat) (key : PublicKey) (c : Conditions) : Prop :=
  (¬ Expired now c ∧ ∃ xs : List (BitVec 256), xs.length < c.numSigs.getD 1 ∧
    c.numSigs.getD 1 ≤ (keysAt xs (listedKeys key c)).length ∧
    (keysAt xs (listedKeys key c)).Nodup) ∨
  (Expired now c ∧ ∃ refundKeys, c.refundKeys = some refundKeys ∧
    ∃ xs : List (BitVec 256), xs.length < c.numSigsRefund.getD 1 ∧
      c.numSigsRefund.getD 1 ≤ (keysAt xs refundKeys).dedup.length ∧
      (xs.filter fun x => x ∈ (listedKeys key c).map PublicKey.x).length < c.numSigs.getD 1)

section Soundness

variable {env : Env} {msg : List UInt8} {texts : List String} {keys : List PublicKey} {n : Nat}

/-- A signature is valid for every point with the `x` coordinate. -/
theorem Signed.of_x {key other : PublicKey} (h : Signed env msg texts key) (hx : other.x = key.x) :
    Signed env msg texts other := by
  obtain ⟨text, htext, sig, hsig, hv⟩ := h
  exact ⟨text, htext, sig, hsig, by rw [PublicKey.verify, hx]; exact hv⟩

/-- One point for each `x` coordinate of a list. -/
def distinctX (keys : List PublicKey) : List PublicKey :=
  keys.pwFilter fun a b => a.x ≠ b.x

theorem map_x_distinctX (keys : List PublicKey) :
    (distinctX keys).map PublicKey.x = (keys.map PublicKey.x).dedup := by
  rw [distinctX, List.dedup, List.pwFilter_map]

theorem distinctX_subset (keys : List PublicKey) : distinctX keys ⊆ keys :=
  List.pwFilter_subset keys

theorem nodup_map_x_distinctX (keys : List PublicKey) :
    ((distinctX keys).map PublicKey.x).Nodup := by
  rw [map_x_distinctX]
  exact List.nodup_dedup _

/-- Signed points have as many signers as they have `x` coordinates. -/
theorem DistinctSigners.of_signed (signed : List PublicKey) (hsub : signed ⊆ keys)
    (hs : ∀ key ∈ signed, Signed env msg texts key)
    (hle : n ≤ (signed.map PublicKey.x).dedup.length) : DistinctSigners env msg texts keys n := by
  refine ⟨distinctX signed, nodup_map_x_distinctX signed, ?_, ?_⟩
  · rwa [← List.length_map (f := PublicKey.x), map_x_distinctX]
  · intro key hkey
    have hmem := distinctX_subset signed hkey
    exact ⟨hsub hmem, hs key hmem⟩

/-- There are no more signers than `x` coordinates with a valid signature. -/
theorem DistinctSigners.le_of_signed {xs : List (BitVec 256)}
    (h : DistinctSigners env msg texts keys n) (hs : ∀ key, Signed env msg texts key → key.x ∈ xs) :
    n ≤ (xs.filter fun x => x ∈ keys.map PublicKey.x).length := by
  obtain ⟨signers, hnd, hle, hsigners⟩ := h
  have hsub : signers.map PublicKey.x ⊆ xs.filter fun x => x ∈ keys.map PublicKey.x := by
    intro x hx
    obtain ⟨key, hkey, rfl⟩ := List.mem_map.mp hx
    obtain ⟨hmem, hsigned⟩ := hsigners key hkey
    have hx' : key.x ∈ keys.map PublicKey.x := List.mem_map_of_mem hmem
    exact List.mem_filter.mpr ⟨hs key hsigned, by simpa using hx'⟩
  have hlen := (List.subperm_of_subset hnd hsub).length_le
  rw [List.length_map] at hlen
  exact hle.trans hlen

/-- Too few signers before the locktime undercut the threshold. -/
theorem undercut_of_listed {now : Nat} {key : PublicKey} {c : Conditions} (hexp : ¬ Expired now c)
    (hok : verifyThreshold env msg (listedKeys key c) texts (c.numSigs.getD 1) = .ok ())
    (hfew : ¬ DistinctSigners env msg texts (listedKeys key c) (c.numSigs.getD 1)) :
    Undercut now key c := by
  obtain ⟨sigs, hp, hnd, hle⟩ := (verifyThreshold_eq_ok (listedKeys_ne_nil key c)).mp hok
  let signed := signedKeys env msg (listedKeys key c) sigs
  have hsub : signed ⊆ listedKeys key c := fun k hk => (mem_signedKeys.mp hk).1
  have hsigned : ∀ k ∈ signed, Signed env msg texts k := fun k hk =>
    hp.signed.mpr (mem_signedKeys.mp hk).2
  refine .inl ⟨hexp, (signed.map PublicKey.x).dedup, ?_, ?_, ?_⟩
  · apply Nat.lt_of_not_le
    intro hmany
    exact hfew (.of_signed signed hsub hsigned hmany)
  · have hmem : signed ⊆ keysAt (signed.map PublicKey.x).dedup (listedKeys key c) := by
      intro k hk
      refine List.mem_filter.mpr ⟨hsub hk, ?_⟩
      simpa using ⟨k, hk, rfl⟩
    exact hle.trans (List.subperm_of_subset hnd hmem).length_le
  · apply nodup_filter_of_signed hnd
    intro k _ hk
    obtain ⟨k', hk', hx⟩ := List.mem_map.mp (List.mem_dedup.mp (by simpa using hk))
    obtain ⟨-, sig, hsig, hv⟩ := mem_signedKeys.mp hk'
    exact ⟨sig, hsig, by rw [PublicKey.verify, ← hx]; exact hv⟩

/-- Too few signers on the refund path undercut its threshold. -/
theorem undercut_of_refund {now : Nat} {key : PublicKey} {c : Conditions}
    {refundKeys : List PublicKey} (hexp : Expired now c) (hr : c.refundKeys = some refundKeys)
    (hok : refundLoop env msg (c.numSigsRefund.getD 1) refundKeys texts [] = .ok ())
    (hfew : ¬ DistinctSigners env msg texts refundKeys (c.numSigsRefund.getD 1))
    (hlisted : ¬ DistinctSigners env msg texts (listedKeys key c) (c.numSigs.getD 1)) :
    Undercut now key c := by
  have hnil : Collected env msg refundKeys texts [] := ⟨List.nodup_nil, by simp⟩
  obtain ⟨valid, ⟨hnd, hvalid⟩, hle⟩ := refundLoop_ok (List.Subset.refl texts) hnil hok
  let xs := (valid.map PublicKey.x).dedup
  have hx : ∀ k : PublicKey, k.x ∈ xs → Signed env msg texts k := by
    intro k hk
    obtain ⟨k', hk', hx⟩ := List.mem_map.mp (List.mem_dedup.mp hk)
    exact (hvalid k' hk').2.of_x hx.symm
  refine .inr ⟨hexp, refundKeys, hr, xs, ?_, ?_, ?_⟩
  · apply Nat.lt_of_not_le
    intro hmany
    exact hfew (.of_signed valid (fun k hk => (hvalid k hk).1) (fun k hk => (hvalid k hk).2) hmany)
  · have hmem : valid ⊆ (keysAt xs refundKeys).dedup := by
      intro k hk
      refine List.mem_dedup.mpr (List.mem_filter.mpr ⟨(hvalid k hk).1, ?_⟩)
      simpa [xs] using ⟨k, hk, rfl⟩
    exact hle.trans (List.subperm_of_subset hnd hmem).length_le
  · apply Nat.lt_of_not_le
    intro hmany
    apply hlisted
    apply DistinctSigners.of_signed (keysAt xs (listedKeys key c))
    · exact List.filter_subset_self _
    · intro k hk
      exact hx k (by simpa using (List.mem_filter.mp hk).2)
    · have hsub : (xs.filter fun x => x ∈ (listedKeys key c).map PublicKey.x) ⊆
          ((keysAt xs (listedKeys key c)).map PublicKey.x).dedup := by
        intro x hx
        obtain ⟨hx₁, hx₂⟩ := List.mem_filter.mp hx
        have hlist : x ∈ (listedKeys key c).map PublicKey.x := by simpa using hx₂
        obtain ⟨k, hk, rfl⟩ := List.mem_map.mp hlist
        exact List.mem_dedup.mpr (List.mem_map_of_mem
          (List.mem_filter.mpr ⟨hk, by simpa using hx₁⟩))
      have hnd' : (xs.filter fun x => x ∈ (listedKeys key c).map PublicKey.x).Nodup :=
        (List.nodup_dedup _).filter _
      exact hmany.trans (List.subperm_of_subset hnd' hsub).length_le

/-- A witness with one signature. -/
def singleProof (text : String) (key : PublicKey) : Proof :=
  ⟨Amount.one, .v1 0, text, key, some (.p2pk ⟨[Signature.toText 0]⟩)⟩

/-- The environment in which every signature is valid for the given `x` coordinates. -/
def Env.accepting (env : Env) (xs : List (BitVec 256)) : Env :=
  { env with verifySchnorr := fun x _ _ => x ∈ xs }

theorem verify_accepting {xs : List (BitVec 256)} {key : PublicKey} {sig : Signature} :
    key.verify (env.accepting xs) msg sig = decide (key.x ∈ xs) := rfl

theorem x_mem_of_signed_accepting (env : Env) {xs : List (BitVec 256)} {key : PublicKey}
    (h : Signed (env.accepting xs) msg texts key) : key.x ∈ xs := by
  obtain ⟨-, -, sig, -, hv⟩ := h
  simpa [verify_accepting] using hv

/-- A check with one accepted signature before the locktime. -/
theorem verifyThreshold_accepting {xs : List (BitVec 256)} (hne : keys ≠ [])
    (hnd : (keysAt xs keys).Nodup) (hle : n ≤ (keysAt xs keys).length) :
    verifyThreshold (env.accepting xs) msg keys [Signature.toText 0] n = .ok () := by
  have hsigned : signedKeys (env.accepting xs) msg keys [0] = keysAt xs keys := by
    rw [signedKeys_singleton]
    rfl
  refine (verifyThreshold_eq_ok hne).mpr ⟨[0], Parsed.toText [0], ?_, ?_⟩
  · rwa [hsigned]
  · rwa [hsigned]

/-- A refund with one accepted signature. -/
theorem refundLoop_accepting {xs : List (BitVec 256)} (hpos : 0 < n)
    (hle : n ≤ (keysAt xs keys).dedup.length) :
    refundLoop (env.accepting xs) msg n keys [Signature.toText 0] [] = .ok () := by
  have hdone : (refundKeysLoop (env.accepting xs) msg n 0 keys []).2 = true := by
    apply refundKeysLoop_done List.nodup_nil hpos
    rw [List.toFinset_nil, Finset.empty_union, List.card_toFinset]
    exact hle
  unfold refundLoop
  rw [Signature.fromStr_toText]
  dsimp only
  split
  next => rfl
  next v heq => rw [heq] at hdone; cases hdone

end Soundness

/-- For every P2PK secret and every time: all witnesses are sound for all signature oracles
exactly when no threshold is undercut. -/
theorem verifyP2pk_thresholdSound_iff (env : Env) (now : Nat) (text : String) (key : PublicKey)
    (c : Conditions) (h : IsP2pk env text key c) :
    (∀ schnorr proof, proof.secret = text →
        ThresholdSound { env with verifySchnorr := schnorr } now key c proof) ↔
      ¬ Undercut now key c := by
  constructor
  · intro hsound
    rintro (⟨hexp, xs, hlt, hle, hnd⟩ | ⟨hexp, refundKeys, hr, xs, hlt, hle, hfew⟩)
    · have h' : IsP2pk (env.accepting xs) (singleProof text key).secret key c := h
      have hok : verifyP2pk (env.accepting xs) now (singleProof text key) = .ok () :=
        (verifyP2pk_eq_ok h').mpr
          ⟨_, rfl, .inr ⟨hexp, verifyThreshold_accepting (listedKeys_ne_nil key c) hnd hle⟩⟩
      rcases hsound _ (singleProof text key) rfl hok with hexp' | hexp' | hsigners
      · exact hexp hexp'.1
      · exact hexp hexp'.1
      · have hmany := hsigners.le_of_signed fun _ => x_mem_of_signed_accepting env
        have hlen := List.length_filter_le
          (fun x => decide (x ∈ (listedKeys key c).map PublicKey.x)) xs
        omega
    · have h' : IsP2pk (env.accepting xs) (singleProof text key).secret key c := h
      have hok : verifyP2pk (env.accepting xs) now (singleProof text key) = .ok () :=
        (verifyP2pk_eq_ok h').mpr
          ⟨_, rfl, .inl ⟨hexp, .inr ⟨refundKeys, hr, refundLoop_accepting (by omega) hle⟩⟩⟩
      rcases hsound _ (singleProof text key) rfl hok with hnone | hsigners | hsigners
      · rw [hr] at hnone
        cases hnone.2
      · obtain ⟨-, keys, hkeys, hsigners⟩ := hsigners
        rw [hr, Option.some.injEq] at hkeys
        subst hkeys
        have hmany := hsigners.le_of_signed fun _ => x_mem_of_signed_accepting env
        have hlen := List.length_filter_le (fun x => decide (x ∈ refundKeys.map PublicKey.x)) xs
        omega
      · have hmany := hsigners.le_of_signed fun _ => x_mem_of_signed_accepting env
        omega
  · intro hcut schnorr proof hp hok
    subst hp
    have h' : IsP2pk { env with verifySchnorr := schnorr } proof.secret key c := h
    obtain ⟨texts, htexts, hpath⟩ := (verifyP2pk_eq_ok h').mp hok
    have hsig : proof.signatureTexts = texts := by
      rw [Proof.signatureTexts, htexts, Option.getD_some]
    rw [hsig]
    rcases hpath with ⟨hexp, hnone | ⟨refundKeys, hr, hloop⟩⟩ | ⟨hexp, hthreshold⟩
    · exact .inl ⟨hexp, hnone⟩
    · by_contra hunsound
      simp only [not_or] at hunsound
      refine hcut (undercut_of_refund hexp hr hloop ?_ hunsound.2.2)
      intro hsigners
      exact hunsound.2.1 ⟨hexp, refundKeys, hr, hsigners⟩
    · by_contra hunsound
      simp only [not_or] at hunsound
      exact hcut (undercut_of_listed hexp hthreshold hunsound.2.2)

/-! ## Two points of one key -/

/-- A key of the example and the point with the same `x` coordinate and the other parity. -/
def evenPoint : PublicKey :=
  ⟨false, 0x6562efcfadc8e86d44da6a8adf80633d974302e62c850774db1fb36ff4cc7198⟩

def oddPoint : PublicKey := ⟨true, evenPoint.x⟩

/-- A secret that asks for two signatures and lists both points of one key. -/
def paritySecret : Nut10Secret :=
  ⟨.p2pk, ⟨"5d11913ee0f92fefdc82a6764fd2457a",
    "026562efcfadc8e86d44da6a8adf80633d974302e62c850774db1fb36ff4cc7198",
    some [["pubkeys", "036562efcfadc8e86d44da6a8adf80633d974302e62c850774db1fb36ff4cc7198"],
      ["n_sigs", "2"]]⟩⟩

def paritySecretText : String := "[\"P2PK\",\x7b\"nonce\":\"5d11913ee0f92fefdc82a6764fd2457a\"," ++
  "\"data\":\"026562efcfadc8e86d44da6a8adf80633d974302e62c850774db1fb36ff4cc7198\"," ++
  "\"tags\":[[\"pubkeys\"," ++
  "\"036562efcfadc8e86d44da6a8adf80633d974302e62c850774db1fb36ff4cc7198\"],[\"n_sigs\",\"2\"]]\x7d]"

def parityConditions : Conditions where
  locktime := none
  pubkeys := some [oddPoint]
  refundKeys := none
  numSigs := some 2
  sigFlag := .sigInputs
  numSigsRefund := none

/-- A key with another `x` coordinate. -/
def otherPoint : PublicKey :=
  ⟨false, 0x194603ffa36356f4a56b7df9371fc3192472351453ec7398b8da8117e7c3e104⟩

/-- The secrets of a table parse, and the texts of the three points are read back. -/
def Env.ofSecrets (table : List (String × Nut10Secret)) : Env where
  parseSecret text := table.lookup text
  parsePublicKey text := [evenPoint, oddPoint, otherPoint].find? fun key => key.toHex = text
  verifySchnorr _ _ _ := false
  sha256 _ := 0
  hashToCurve _ := none
  signMessage _ _ _ := none
  verifyMessage _ _ _ _ := false

/-- Every signature of the one key is valid. -/
def parityEnv : Env := (Env.ofSecrets [(paritySecretText, paritySecret)]).accepting [evenPoint.x]

theorem parity_isP2pk : IsP2pk parityEnv paritySecretText evenPoint parityConditions := by
  refine ⟨paritySecret, ?_, rfl, ?_, ?_⟩
  · simp only [parityEnv, Env.accepting, Env.ofSecrets, List.lookup_cons_self]
  · decide +kernel
  · decide +kernel

/-- One signature of one key meets the threshold of two. -/
theorem verifyP2pk_undercut_by_parity :
    IsP2pk parityEnv paritySecretText evenPoint parityConditions ∧
      verifyP2pk parityEnv 1700000000 (singleProof paritySecretText evenPoint) = .ok () ∧
      ¬ ThresholdSound parityEnv 1700000000 evenPoint parityConditions
        (singleProof paritySecretText evenPoint) := by
  have hexp : ¬ Expired 1700000000 parityConditions := by
    rintro ⟨locktime, hl, -⟩
    cases hl
  have h : IsP2pk parityEnv (singleProof paritySecretText evenPoint).secret evenPoint
      parityConditions := parity_isP2pk
  have hok : verifyP2pk parityEnv 1700000000 (singleProof paritySecretText evenPoint) = .ok () :=
    (verifyP2pk_eq_ok h).mpr ⟨_, rfl, .inr ⟨hexp,
      verifyThreshold_accepting (listedKeys_ne_nil _ _) (by decide) (by decide)⟩⟩
  refine ⟨parity_isP2pk, hok, ?_⟩
  intro hsound
  rcases hsound hok with hexp' | hexp' | hsigners
  · exact hexp hexp'.1
  · exact hexp hexp'.1
  · have hmany := hsigners.le_of_signed fun _ => x_mem_of_signed_accepting
      (Env.ofSecrets [(paritySecretText, paritySecret)])
    exact absurd hmany (by decide)

theorem verifyP2pk_thresholdSound_iff_at_parity :
    (∀ schnorr proof, proof.secret = paritySecretText →
        ThresholdSound { parityEnv with verifySchnorr := schnorr } 1700000000 evenPoint
          parityConditions proof) ↔
      ¬ Undercut 1700000000 evenPoint parityConditions :=
  verifyP2pk_thresholdSound_iff parityEnv 1700000000 paritySecretText evenPoint parityConditions
    parity_isP2pk

end Cdk
