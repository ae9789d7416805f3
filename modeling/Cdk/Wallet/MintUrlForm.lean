import Cdk.Lib.Splitting
import Cdk.Wallet.Texts
import Mathlib.Data.List.DropRight

/-!
# The form of a mint url

A mint url is read as the pieces between the occurrences of `://`, of which the
first two are kept, and the second as the segments between slashes. What is kept
is written again with protocol and host in lower case.
-/

namespace Cdk

open Lib

namespace MintUrl

/-! ## Lower case -/

/-- What a character becomes in lower case: colons and slashes stay, and no other character
becomes one of them. -/
def LowerImage (c : Char) (image : List Char) : Prop :=
  if c = ':' ∨ c = '/' then image = [c] else image ≠ [] ∧ ':' ∉ image ∧ '/' ∉ image

/-- What is used of the lower case of Unicode: it is made character by character, it stays when it
is made again, and it does not depend on the case of the ASCII letters. -/
structure Lowers (casing : Casing) : Prop where
  images : ∀ text, ∃ images, List.Forall₂ LowerImage text.toList images ∧
    (casing.lowercase text).toList = images.flatten
  again : ∀ text, casing.lowercase (casing.lowercase text) = casing.lowercase text
  ascii : ∀ text, casing.lowercase (text.map Char.toLower) = casing.lowercase text
  onAscii : ∀ text : String, (∀ c ∈ text.toList, c.toNat < 128) →
    casing.lowercase text = text.map Char.toLower

/-- Upper and lower case of the ASCII letters. -/
def asciiCasing : Casing := ⟨fun text => text.map Char.toLower, fun text => text.map Char.toUpper⟩

/-- A character is in lower case, or its lower case is a letter. -/
theorem toLower_cases (c : Char) : c.toLower = c ∨ 97 ≤ c.toLower.toNat := by
  unfold Char.toLower
  split
  next h =>
    right
    have hlow : 65 ≤ c.val.toNat := UInt32.le_iff_toNat_le.mp h.1
    have hhigh : c.val.toNat ≤ 90 := UInt32.le_iff_toNat_le.mp h.2
    have hval : (c.val + ('a'.val - 'A'.val)).toNat = c.val.toNat + 32 := by
      rw [UInt32.toNat_add]
      exact Nat.mod_eq_of_lt (by change c.val.toNat + 32 < 2 ^ 32; omega)
    change 97 ≤ (c.val + ('a'.val - 'A'.val)).toNat
    omega
  next => exact .inl rfl

theorem toLower_eq_self {c : Char} (h : 97 ≤ c.toNat) : c.toLower = c := by
  unfold Char.toLower
  apply dif_neg
  rintro ⟨-, hle⟩
  have hhigh : c.toNat ≤ 90 := UInt32.le_iff_toNat_le.mp hle
  omega

theorem toLower_toLower (c : Char) : c.toLower.toLower = c.toLower := by
  rcases toLower_cases c with h | h
  · rw [h, h]
  · exact toLower_eq_self h

theorem toLower_ne {c d : Char} (hd : d.toNat < 97) (hne : c ≠ d) : c.toLower ≠ d := by
  rcases toLower_cases c with h | h
  · rwa [h]
  · rintro rfl
    omega

theorem map_toLower_toLower (text : String) :
    (text.map Char.toLower).map Char.toLower = text.map Char.toLower := by
  rw [String.map_map]
  exact congrArg (text.map ·) (funext toLower_toLower)

theorem lowers_asciiCasing : Lowers asciiCasing where
  images text := by
    refine ⟨text.toList.map fun c => [c.toLower], ?_, ?_⟩
    · rw [List.forall₂_map_right_iff, List.forall₂_same]
      intro c _
      unfold LowerImage
      split
      next h => rcases h with rfl | rfl <;> rfl
      next h =>
        obtain ⟨hcolon, hslash⟩ := not_or.mp h
        refine ⟨List.cons_ne_nil _ _, fun hc => ?_, fun hc => ?_⟩
        · exact toLower_ne (by decide) hcolon (List.mem_singleton.mp hc).symm
        · exact toLower_ne (by decide) hslash (List.mem_singleton.mp hc).symm
    · change (text.map Char.toLower).toList = _
      rw [String.toList_map]
      induction text.toList with
      | nil => rfl
      | cons c rest ih => rw [List.map_cons, List.map_cons, List.flatten_cons, ← ih]; rfl
  again text := map_toLower_toLower text
  ascii text := map_toLower_toLower text
  onAscii _ _ := rfl

/-! ## Separators in lower case -/

/-- Colons and slashes at the start are those of the text. -/
theorem prefix_of_images {word text tail : List Char} {images : List (List Char)}
    (hword : ∀ a ∈ word, a = ':' ∨ a = '/') (himages : List.Forall₂ LowerImage text images)
    (h : word <+: images.flatten ++ tail) : word <+: text ++ tail := by
  induction word generalizing text images with
  | nil => exact List.nil_prefix
  | cons a word ih =>
      obtain ⟨ha, hword⟩ := List.forall_mem_cons.mp hword
      cases himages with
      | nil => exact h
      | @cons c image text images hc himages =>
          unfold LowerImage at hc
          split at hc
          next =>
            subst hc
            obtain ⟨rfl, hrest⟩ := List.cons_prefix_cons.mp h
            exact List.cons_prefix_cons.mpr ⟨rfl, ih hword himages hrest⟩
          next =>
            obtain ⟨hne, hcolon, hslash⟩ := hc
            obtain ⟨b, image, rfl⟩ := List.exists_cons_of_ne_nil hne
            obtain ⟨rfl, -⟩ := List.cons_prefix_cons.mp h
            rcases ha with rfl | rfl
            · exact absurd List.mem_cons_self hcolon
            · exact absurd List.mem_cons_self hslash

theorem infix_of_append {a : Char} {word image tail : List Char} (ha : a ∉ image)
    (h : a :: word <:+: image ++ tail) : a :: word <:+: tail := by
  induction image with
  | nil => exact h
  | cons b image ih =>
      rcases List.infix_cons_iff.mp h with h | h
      · obtain ⟨rfl, -⟩ := List.cons_prefix_cons.mp h
        exact absurd List.mem_cons_self ha
      · exact ih (fun hmem => ha (List.mem_cons_of_mem b hmem)) h

theorem infix_of_images {a : Char} {word text tail : List Char} {images : List (List Char)}
    (hword : ∀ b ∈ a :: word, b = ':' ∨ b = '/') (himages : List.Forall₂ LowerImage text images)
    (h : a :: word <:+: images.flatten ++ tail) : a :: word <:+: text ++ tail := by
  induction himages with
  | nil => exact h
  | @cons c image text images hc himages ih =>
      rw [List.flatten_cons, List.append_assoc] at h
      by_cases hsep : c = ':' ∨ c = '/'
      · have himage : image = [c] := by rwa [LowerImage, if_pos hsep] at hc
        subst himage
        rcases List.infix_cons_iff.mp h with h | h
        · obtain ⟨rfl, hprefix⟩ := List.cons_prefix_cons.mp h
          have hrest := prefix_of_images (List.forall_mem_cons.mp hword).2 himages hprefix
          exact (List.cons_prefix_cons.mpr ⟨rfl, hrest⟩).isInfix
        · exact (ih h).trans (List.suffix_cons c _).isInfix
      · rw [LowerImage, if_neg hsep] at hc
        have ha : a ∉ image := by
          rcases hword a List.mem_cons_self with rfl | rfl
          · exact hc.2.1
          · exact hc.2.2
        exact (ih (infix_of_append ha h)).trans (List.suffix_cons c _).isInfix

section Lowercase

variable {casing : Casing} (hlower : Lowers casing)

include hlower

/-- The lower case of a text does not complete a separator of colons and slashes. -/
theorem Lowers.unseparated {a : Char} {word tail : List Char} {text : String}
    (hword : ∀ b ∈ a :: word, b = ':' ∨ b = '/')
    (h : Unseparated (a :: word) (text.toList ++ tail)) :
    Unseparated (a :: word) ((casing.lowercase text).toList ++ tail) := by
  obtain ⟨images, himages, heq⟩ := hlower.images text
  rw [heq]
  exact fun hsep => h (infix_of_images hword himages hsep)

omit hlower in
theorem mem_schemeSeparator {b : Char} (h : b ∈ "://".toList) : b = ':' ∨ b = '/' := by
  have hmem : b ∈ [':', '/', '/'] := h
  rcases List.mem_cons.mp hmem with rfl | hmem
  · exact .inl rfl
  · rw [List.mem_cons, List.mem_singleton, or_self] at hmem
    exact .inr hmem

omit hlower in
theorem mem_slashSeparator {b : Char} (h : b ∈ "/".toList) : b = ':' ∨ b = '/' :=
  .inr (List.mem_singleton.mp h)

theorem Lowers.eq_empty {text : String} : casing.lowercase text = "" ↔ text = "" := by
  obtain ⟨images, himages, heq⟩ := hlower.images text
  rw [← String.toList_eq_nil_iff, ← String.toList_eq_nil_iff, heq]
  generalize text.toList = chars at himages
  cases himages with
  | nil => rfl
  | @cons c image text images hc himages =>
      unfold LowerImage at hc
      split at hc
      next => simp [hc]
      next => simp [hc.1]

end Lowercase

/-! ## Pieces -/

theorem unbordered_slash : Unbordered "/".toList := unbordered_singleton '/'

theorem unbordered_separator : Unbordered "://".toList where
  ne_nil := by decide
  not_prefix part rest hne hlt hprefix := by
    match part, hne, hlt with
    | [a], _, _ =>
        obtain ⟨-, hprefix⟩ := List.cons_prefix_cons.mp hprefix
        exact absurd (List.cons_prefix_cons.mp hprefix).1 (by decide)
    | [a, b], _, _ =>
        obtain ⟨-, hprefix⟩ := List.cons_prefix_cons.mp hprefix
        obtain ⟨-, hprefix⟩ := List.cons_prefix_cons.mp hprefix
        exact absurd (List.cons_prefix_cons.mp hprefix).1 (by decide)
    | a :: b :: c :: part, _, hlt =>
        have hlong : part.length + 3 < 3 := hlt
        omega

theorem splitFrom_skip (separator : List Char) (skip : Nat) (part text : List Char) :
    splitFrom separator skip part text = splitFrom separator 0 part (text.drop skip) := by
  induction text generalizing skip with
  | nil => rw [List.drop_nil, splitFrom, splitFrom]
  | cons c rest ih =>
      cases skip with
      | zero => rfl
      | succ skip => rw [splitFrom, ih, List.drop_succ_cons]

/-- The pieces of a text have no separator and are joined to the text, if the separator does not
begin in the part that is read. -/
theorem splitFrom_spec {separator : List Char} (hne : separator ≠ []) (part text : List Char)
    (hpart : ∀ suffix, suffix ≠ [] → suffix <:+ part.reverse → ¬ separator <+: suffix ++ text) :
    splitFrom separator 0 part text ≠ [] ∧
      (∀ piece ∈ splitFrom separator 0 part text, Unseparated separator piece) ∧
      separator.intercalate (splitFrom separator 0 part text) = part.reverse ++ text := by
  induction hsize : text.length using Nat.strong_induction_on generalizing part text with
  | _ size ih =>
      have hfree : Unseparated separator part.reverse := by
        rintro ⟨before, after, h⟩
        apply hpart (separator ++ after) (by simp [hne])
        · exact ⟨before, by rw [← List.append_assoc, h]⟩
        · rw [List.append_assoc]
          exact List.prefix_append _ _
      cases text with
      | nil =>
          rw [splitFrom, List.append_nil, List.intercalate_singleton]
          exact ⟨List.cons_ne_nil _ _, List.forall_mem_singleton.mpr hfree, rfl⟩
      | cons c rest =>
          rw [splitFrom]
          split
          next hsep =>
            obtain ⟨tail, htail⟩ := List.isPrefixOf_iff_prefix.mp hsep
            have hlen := List.length_pos_of_ne_nil hne
            have hdrop : rest.drop (separator.length - 1) = tail := by
              have hcons : (c :: rest).drop separator.length = tail := by
                rw [← htail, List.drop_left]
              obtain ⟨n, hn⟩ : ∃ n, separator.length = n + 1 := ⟨separator.length - 1, by omega⟩
              rw [hn, List.drop_succ_cons] at hcons
              rw [hn]
              exact hcons
            have hshort : tail.length < size := by
              have := congrArg List.length htail
              rw [List.length_append] at this
              omega
            have hnil : ∀ suffix, suffix ≠ [] → suffix <:+ ([] : List Char).reverse →
                ¬ separator <+: suffix ++ tail := fun suffix hsuffix hmem =>
              absurd (List.suffix_nil.mp hmem) hsuffix
            obtain ⟨hsome, hall, hjoin⟩ := ih _ hshort [] tail hnil rfl
            rw [splitFrom_skip, hdrop]
            refine ⟨List.cons_ne_nil _ _, List.forall_mem_cons.mpr ⟨hfree, hall⟩, ?_⟩
            rw [List.intercalate_cons_of_ne_nil hsome, hjoin, List.append_assoc, ← htail]
            rfl
          next hsep =>
            have hno : ¬ separator <+: c :: rest := fun h =>
              hsep (List.isPrefixOf_iff_prefix.mpr h)
            have hnext : ∀ suffix, suffix ≠ [] → suffix <:+ (c :: part).reverse →
                ¬ separator <+: suffix ++ rest := by
              intro suffix hsuffix hmem
              rw [List.reverse_cons] at hmem
              rcases List.suffix_concat_iff.mp hmem with rfl | ⟨before, rfl, hbefore⟩
              · exact absurd rfl hsuffix
              · rw [List.append_assoc]
                by_cases hempty : before = []
                · rw [hempty]
                  exact hno
                · exact hpart before hempty hbefore
            have hshort : rest.length < size := by
              rw [← hsize]
              exact Nat.lt_succ_self _
            have hlater := ih _ hshort (c :: part) rest hnext rfl
            rwa [List.reverse_cons, List.append_assoc] at hlater

/-- The pieces of a text are those that are joined to it and have no separator. -/
theorem split_spec {separator : String} (hne : separator ≠ "") (text : String) :
    split separator text ≠ [] ∧
      (∀ piece ∈ split separator text, Unseparated separator.toList piece.toList) ∧
      separator.intercalate (split separator text) = text := by
  have hnil : ∀ suffix, suffix ≠ [] → suffix <:+ ([] : List Char).reverse →
      ¬ separator.toList <+: suffix ++ text.toList := fun suffix hsuffix hmem =>
    absurd (List.suffix_nil.mp hmem) hsuffix
  obtain ⟨hsome, hall, hjoin⟩ := splitFrom_spec
    (fun h => hne (String.toList_eq_nil_iff.mp h)) [] text.toList hnil
  have hmap : (split separator text).map String.toList =
      splitFrom separator.toList 0 [] text.toList := by
    rw [split, List.map_map]
    exact (List.map_congr_left fun _ _ => String.toList_ofList).trans (List.map_id _)
  refine ⟨?_, fun piece hpiece => ?_, ?_⟩
  · rwa [split, ne_eq, List.map_eq_nil_iff]
  · exact hall _ (hmap ▸ List.mem_map_of_mem hpiece)
  · rw [← String.toList_inj, String.toList_intercalate, hmap, hjoin]
    rfl

theorem intercalate_injOn {separator : String} (hsep : Unbordered separator.toList)
    {pieces others : List String}
    (hpieces : ∀ piece ∈ pieces, Unseparated separator.toList piece.toList)
    (hothers : ∀ piece ∈ others, Unseparated separator.toList piece.toList)
    (hne : pieces ≠ []) (hother : others ≠ [])
    (h : separator.intercalate pieces = separator.intercalate others) : pieces = others := by
  have hlists := congrArg String.toList h
  rw [String.toList_intercalate, String.toList_intercalate] at hlists
  have heq := hsep.eq_of_intercalate (List.forall_mem_map.mpr hpieces)
    (List.forall_mem_map.mpr hothers) (by simpa using hne) (by simpa using hother) hlists
  exact List.map_injective_iff.mpr (fun _ _ => String.toList_inj.mp) heq

theorem split_intercalate {separator : String} (hsep : Unbordered separator.toList)
    {pieces : List String} (hpieces : ∀ piece ∈ pieces, Unseparated separator.toList piece.toList)
    (hne : pieces ≠ []) : split separator (separator.intercalate pieces) = pieces := by
  have hsome : separator ≠ "" := fun h => hsep.ne_nil (String.toList_eq_nil_iff.mpr h)
  obtain ⟨hother, hothers, hjoin⟩ := split_spec hsome (separator.intercalate pieces)
  exact intercalate_injOn hsep hothers hpieces hother hne hjoin

/-! ## What is read of a url -/

/-- The protocol, the host and the path that `format_url` reads of a url, and what it drops. -/
@[ext] structure Parts where
  protocol : String
  host : String
  path : List String
  dropped : List String

namespace Parts

/-- The text behind the separator. -/
def rest (parts : Parts) : String := "/".intercalate (parts.host :: parts.path)

/-- The text of all parts. -/
def text (parts : Parts) : String :=
  "://".intercalate (parts.protocol :: parts.rest :: parts.dropped)

def pathText (parts : Parts) : String := "/".intercalate parts.path

/-- The parts with protocol and host in lower case. -/
def lower (casing : Casing) (parts : Parts) : Parts :=
  { parts with
    protocol := casing.lowercase parts.protocol
    host := casing.lowercase parts.host }

/-- The parts that `format_url` writes. -/
def kept (parts : Parts) : Parts :=
  { parts with path := if parts.pathText = "" then [] else parts.path, dropped := [] }

/-- Parts without the separators between them. -/
structure Separated (parts : Parts) : Prop where
  protocol : Unseparated "://".toList parts.protocol.toList
  rest : Unseparated "://".toList parts.rest.toList
  host : Unseparated "/".toList parts.host.toList
  path : ∀ segment ∈ parts.path, Unseparated "/".toList segment.toList
  dropped : ∀ piece ∈ parts.dropped, Unseparated "://".toList piece.toList

/-- What is written of the parts ends with a slash. -/
def EndsInSlash (parts : Parts) : Prop :=
  if parts.pathText = "" then parts.host = "" else parts.pathText.toList.getLast? = some '/'

/-- The same protocol, host and path for `format_url`. -/
structure Agree (casing : Casing) (parts others : Parts) : Prop where
  protocol : casing.lowercase parts.protocol = casing.lowercase others.protocol
  host : casing.lowercase parts.host = casing.lowercase others.host
  path : parts.pathText = others.pathText

/-- The same parts but for the case of the ASCII letters of protocol and host. -/
structure Same (parts others : Parts) : Prop where
  protocol : parts.protocol.map Char.toLower = others.protocol.map Char.toLower
  host : parts.host.map Char.toLower = others.host.map Char.toLower
  path : parts.path = others.path
  dropped : parts.dropped = others.dropped

end Parts

/-- The parts of a url without the slashes at its end. -/
def Reads (url : String) (parts : Parts) : Prop :=
  ∃ rest, split "://" (trimEnd '/' url) = parts.protocol :: rest :: parts.dropped ∧
    split "/" rest = parts.host :: parts.path

/-- The url without the slashes at its end, and with the ASCII letters of protocol and host in
lower case. -/
def normalize (url : String) : String :=
  match split "://" (trimEnd '/' url) with
  | protocol :: rest :: dropped =>
      match split "/" rest with
      | host :: path => (Parts.lower asciiCasing ⟨protocol, host, path, dropped⟩).text
      | [] => trimEnd '/' url
  | _ => trimEnd '/' url

/-- A url is read again as it was written, and it is the url of another text exactly if both have
one normal form. -/
structure NormalForm (casing : Casing) (s t : String) : Prop where
  again : ∀ url, formatUrl casing s = some url → formatUrl casing url = some url
  eq_iff : formatUrl casing s = formatUrl casing t ↔ normalize s = normalize t

/-- What is written of the first url does not end with a slash, and if the urls agree in what is
written, they agree in what is dropped as well, and in all but the case of ASCII letters. -/
def Fits (casing : Casing) (s t : String) : Prop :=
  ∀ parts others, Reads s parts → Reads t others →
    ¬ parts.EndsInSlash ∧ (parts.Agree casing others → parts.Same others)

/-! ## Trimming -/

theorem toList_trimEnd (c : Char) (text : String) :
    (trimEnd c text).toList = text.toList.rdropWhile (· == c) := String.toList_ofList

theorem getLast?_trimEnd (c : Char) (text : String) :
    (trimEnd c text).toList.getLast? ≠ some c := by
  rw [toList_trimEnd]
  intro h
  have hne : text.toList.rdropWhile (· == c) ≠ [] := by
    intro hnil
    rw [hnil] at h
    cases h
  rw [List.getLast?_eq_some_getLast hne] at h
  exact List.rdropWhile_last_not _ _ hne (beq_iff_eq.mpr (Option.some.inj h))

theorem trimEnd_eq_self {c : Char} {text : String} (h : text.toList.getLast? ≠ some c) :
    trimEnd c text = text := by
  rw [← String.toList_inj, toList_trimEnd, List.rdropWhile_eq_self_iff]
  intro hne hlast
  exact h (List.getLast?_eq_some_getLast hne ▸ congrArg some (beq_iff_eq.mp hlast))

theorem exists_trimEnd_append (c : Char) (text : String) :
    ∃ trimmed, text.toList = (trimEnd c text).toList ++ trimmed := by
  rw [toList_trimEnd]
  obtain ⟨trimmed, h⟩ := List.rdropWhile_prefix (· == c) text.toList
  exact ⟨trimmed, h.symm⟩

/-! ## Parts and texts -/

section Parts

variable {casing : Casing} {url s t : String} {parts others : Parts}

theorem Parts.intercalate_host (host : String) (path : List String) :
    "/".intercalate (host :: path) =
      host ++ (if path = [] then "" else "/" ++ "/".intercalate path) := by
  cases path with
  | nil => simp
  | cons segment path => simp [String.append_assoc]

theorem Parts.Separated.ext_text (h : parts.Separated) (h' : others.Separated)
    (htext : parts.text = others.text) : parts = others := by
  have hpieces := intercalate_injOn unbordered_separator
    (List.forall_mem_cons.mpr ⟨h.protocol, List.forall_mem_cons.mpr ⟨h.rest, h.dropped⟩⟩)
    (List.forall_mem_cons.mpr ⟨h'.protocol, List.forall_mem_cons.mpr ⟨h'.rest, h'.dropped⟩⟩)
    (List.cons_ne_nil _ _) (List.cons_ne_nil _ _) htext
  obtain ⟨hprotocol, hpieces⟩ := List.cons_eq_cons.mp hpieces
  obtain ⟨hrest, hdropped⟩ := List.cons_eq_cons.mp hpieces
  have hsegments := intercalate_injOn unbordered_slash
    (List.forall_mem_cons.mpr ⟨h.host, h.path⟩) (List.forall_mem_cons.mpr ⟨h'.host, h'.path⟩)
    (List.cons_ne_nil _ _) (List.cons_ne_nil _ _) hrest
  obtain ⟨hhost, hpath⟩ := List.cons_eq_cons.mp hsegments
  exact Parts.ext hprotocol hhost hpath hdropped

/-- A url has parts exactly if they are separated and are its text. -/
theorem reads_iff : Reads url parts ↔ parts.Separated ∧ trimEnd '/' url = parts.text := by
  constructor
  · rintro ⟨rest, hpieces, hsegments⟩
    obtain ⟨-, hfree, hjoin⟩ := @split_spec "://" (by decide) (trimEnd '/' url)
    obtain ⟨-, hslash, hrest⟩ := @split_spec "/" (by decide) rest
    rw [hpieces] at hfree hjoin
    rw [hsegments] at hslash hrest
    obtain ⟨hprotocol, hfree⟩ := List.forall_mem_cons.mp hfree
    obtain ⟨hfreeRest, hdropped⟩ := List.forall_mem_cons.mp hfree
    obtain ⟨hhost, hpath⟩ := List.forall_mem_cons.mp hslash
    have hrest : parts.rest = rest := hrest
    refine ⟨⟨hprotocol, hrest ▸ hfreeRest, hhost, hpath, hdropped⟩, ?_⟩
    rw [Parts.text, hrest, hjoin]
  · rintro ⟨h, htext⟩
    refine ⟨parts.rest, ?_, ?_⟩
    · rw [htext]
      exact split_intercalate unbordered_separator (List.forall_mem_cons.mpr
        ⟨h.protocol, List.forall_mem_cons.mpr ⟨h.rest, h.dropped⟩⟩) (List.cons_ne_nil _ _)
    · exact split_intercalate unbordered_slash (List.forall_mem_cons.mpr ⟨h.host, h.path⟩)
        (List.cons_ne_nil _ _)

theorem Reads.unique (h : Reads url parts) (h' : Reads url others) : parts = others := by
  obtain ⟨h, htext⟩ := reads_iff.mp h
  obtain ⟨h', htext'⟩ := reads_iff.mp h'
  exact h.ext_text h' (htext.symm.trans htext')

theorem Reads.normalize_eq (h : Reads url parts) :
    normalize url = (parts.lower asciiCasing).text := by
  obtain ⟨rest, hpieces, hsegments⟩ := h
  rw [normalize, hpieces]
  dsimp only
  rw [hsegments]

theorem Parts.text_of_dropped (hdropped : parts.dropped = []) :
    parts.text = parts.protocol ++ "://" ++ parts.rest := by
  rw [text, hdropped]
  exact String.intercalate_cons_cons.trans
    (congrArg (parts.protocol ++ "://" ++ ·) String.intercalate_singleton)

theorem Parts.text_kept (parts : Parts) : parts.kept.text =
    parts.protocol ++ "://" ++ parts.host ++
      (if parts.pathText = "" then "" else "/" ++ parts.pathText) := by
  have hrest : parts.kept.rest =
      parts.host ++ (if parts.pathText = "" then "" else "/" ++ parts.pathText) := by
    rw [rest, kept, intercalate_host]
    by_cases hpath : parts.pathText = ""
    · simp [hpath]
    · have hne : parts.path ≠ [] := fun h => hpath (by rw [pathText, h]; rfl)
      simp only [hpath, if_false, hne]
      rfl
  rw [show parts.kept.text = _ from text_of_dropped rfl, hrest]
  change parts.protocol ++ "://" ++ (_ ++ _) = _
  rw [String.append_assoc, String.append_assoc, String.append_assoc]

/-- `format_url` writes the parts that it keeps. -/
theorem formatUrl_eq_some {formatted : String} : formatUrl casing url = some formatted ↔
    ∃ parts, Reads url parts ∧ formatted = (parts.lower casing).kept.text := by
  have hwritten (parts : Parts) : (parts.lower casing).kept.text =
      if parts.pathText.isEmpty then
        casing.lowercase parts.protocol ++ "://" ++ casing.lowercase parts.host
      else casing.lowercase parts.protocol ++ "://" ++ casing.lowercase parts.host ++ "/" ++
        parts.pathText := by
    rw [Parts.text_kept]
    change _ ++ (if parts.pathText = "" then _ else "/" ++ parts.pathText) = _
    by_cases hpath : parts.pathText = ""
    · simp [hpath, Parts.lower]
    · simp [hpath, Parts.lower, String.append_assoc]
  constructor
  · intro h
    rw [formatUrl] at h
    split at h
    next => cases h
    next =>
      simp only [Option.bind_eq_bind, Option.bind_eq_some_iff] at h
      obtain ⟨protocol, hprotocol, rest, hrest, host, hhost, h⟩ := h
      obtain ⟨dropped, hpieces⟩ : ∃ dropped,
          split "://" (trimEnd '/' url) = protocol :: rest :: dropped := by
        cases hsplit : split "://" (trimEnd '/' url) with
        | nil => simp [hsplit] at hprotocol
        | cons first tail =>
            cases tail with
            | nil => simp [hsplit] at hrest
            | cons second dropped =>
                rw [hsplit] at hprotocol hrest
                cases hprotocol
                cases hrest
                exact ⟨dropped, rfl⟩
      obtain ⟨path, hsegments⟩ : ∃ path, split "/" rest = host :: path := by
        cases hsplit : split "/" rest with
        | nil => simp [hsplit] at hhost
        | cons first path =>
            rw [hsplit] at hhost
            cases hhost
            exact ⟨path, rfl⟩
      refine ⟨⟨protocol, host, path, dropped⟩, ⟨rest, hpieces, hsegments⟩, ?_⟩
      rw [hsegments] at h
      rw [hwritten]
      exact (Option.some.inj h).symm
  · rintro ⟨parts, ⟨rest, hpieces, hsegments⟩, rfl⟩
    have hne : url.isEmpty = false := by
      by_contra h
      obtain rfl : url = "" := String.isEmpty_iff.mp (by simpa using h)
      have hnone : split "://" (trimEnd '/' "") = [""] := by decide +kernel
      rw [hnone] at hpieces
      exact absurd (List.cons_eq_cons.mp hpieces).2 (List.cons_ne_nil _ _).symm
    rw [formatUrl, hne, hpieces, hwritten]
    simp only [Bool.false_eq_true, if_false, List.getElem?_cons_zero, List.getElem?_cons_succ,
      Option.bind_eq_bind, Option.bind_some, hsegments, List.drop_succ_cons, List.drop_zero]
    rfl

/-! ## What is written -/

theorem Parts.toList_rest (parts : Parts) : ∃ tail, ∀ host,
    (Parts.rest { parts with host := host }).toList = host.toList ++ tail := by
  refine ⟨(if parts.path = [] then "" else "/" ++ "/".intercalate parts.path).toList,
    fun host => ?_⟩
  rw [rest, intercalate_host, String.toList_append]

theorem Parts.Separated.lower (hlower : Lowers casing) (h : parts.Separated) :
    (parts.lower casing).Separated where
  protocol := by
    have hfree : Unseparated "://".toList (parts.protocol.toList ++ []) := by
      rw [List.append_nil]
      exact h.protocol
    have := hlower.unseparated (fun _ => mem_schemeSeparator) hfree
    rwa [List.append_nil] at this
  rest := by
    obtain ⟨tail, htail⟩ := parts.toList_rest
    have hfree := h.rest
    rw [show parts.rest = Parts.rest { parts with host := parts.host } from rfl, htail] at hfree
    have hlowered : (parts.lower casing).rest =
        Parts.rest { parts with host := casing.lowercase parts.host } := rfl
    rw [hlowered, htail]
    exact hlower.unseparated (fun _ => mem_schemeSeparator) hfree
  host := by
    have hfree : Unseparated "/".toList (parts.host.toList ++ []) := by
      rw [List.append_nil]
      exact h.host
    have := hlower.unseparated (fun _ => mem_slashSeparator) hfree
    rwa [List.append_nil] at this
  path := h.path
  dropped := h.dropped

theorem Parts.Separated.kept (h : parts.Separated) : parts.kept.Separated where
  protocol := h.protocol
  rest := by
    rw [Parts.rest, Parts.kept]
    dsimp only
    split
    · rw [String.intercalate_singleton]
      obtain ⟨tail, htail⟩ := parts.toList_rest
      exact h.rest.of_infix ⟨[], tail, (htail parts.host).symm⟩
    · exact h.rest
  host := h.host
  path := by
    rw [Parts.kept]
    dsimp only
    split
    · exact fun _ hmem => nomatch hmem
    · exact h.path
  dropped := fun _ hmem => nomatch hmem

/-- The empty path is kept as no path. -/
theorem Parts.pathText_kept (parts : Parts) : parts.kept.pathText = parts.pathText := by
  rw [pathText, kept]
  dsimp only
  split
  next hempty => exact hempty.symm
  next => rfl

theorem Parts.path_kept_kept (parts : Parts) : parts.kept.kept.path = parts.kept.path := by
  have hkept : parts.kept.kept.path =
      if parts.kept.pathText = "" then [] else parts.kept.path := rfl
  rw [hkept, pathText_kept]
  split
  next hempty => exact (if_pos hempty).symm
  next => rfl

theorem getLast?_append_of_ne {a b : String} (hb : b ≠ "") :
    (a ++ b).toList.getLast? = b.toList.getLast? := by
  rw [String.toList_append]
  exact List.getLast?_append_of_ne_nil _ (fun h => hb (String.toList_eq_nil_iff.mp h))

theorem Parts.Separated.getLast?_kept (h : parts.Separated) :
    parts.kept.text.toList.getLast? = some '/' ↔ parts.EndsInSlash := by
  rw [Parts.text_kept, Parts.EndsInSlash]
  split
  next =>
    by_cases hhost : parts.host = ""
    · simp [hhost]
    · rw [String.append_empty, getLast?_append_of_ne hhost]
      refine ⟨fun hlast => ?_, fun h => absurd h hhost⟩
      exact absurd (List.mem_of_getLast? hlast) (unseparated_singleton.mp h.host)
  next hpath =>
    rw [getLast?_append_of_ne (by simp), getLast?_append_of_ne hpath]

/-- Without dropped parts, the url itself ends with a slash when what is written does. -/
theorem Parts.getLast?_text (hdropped : parts.dropped = []) (hends : parts.EndsInSlash) :
    parts.text.toList.getLast? = some '/' := by
  rw [text_of_dropped hdropped, rest, intercalate_host]
  unfold EndsInSlash at hends
  split at hends
  next hpath =>
    have hempty : "/".intercalate parts.path = "" := hpath
    rw [hends, hempty]
    split
    · simp
    · simp
  next hpath =>
    have hne : parts.path ≠ [] := fun h => hpath (by rw [pathText, h]; rfl)
    rw [if_neg hne, ← String.append_assoc, ← String.append_assoc]
    exact (getLast?_append_of_ne hpath).trans hends

theorem Parts.endsInSlash_lower (hlower : Lowers casing) :
    (parts.lower casing).EndsInSlash ↔ parts.EndsInSlash := by
  have hpath : (parts.lower casing).pathText = parts.pathText := rfl
  have hhost : (parts.lower casing).host = "" ↔ parts.host = "" := hlower.eq_empty
  simp only [EndsInSlash, hpath, hhost]

/-- What is written and does not end with a slash is read as it was written. -/
theorem Parts.Separated.reads_text (h : parts.Separated)
    (hlast : parts.text.toList.getLast? ≠ some '/') : Reads parts.text parts :=
  reads_iff.mpr ⟨h, trimEnd_eq_self hlast⟩

/-- Of a text that was written nothing is dropped. -/
theorem Parts.Separated.dropped_eq_nil (h : parts.Separated) (hdropped : parts.dropped = [])
    (hreads : Reads parts.text others) : others.dropped = [] := by
  obtain ⟨h', htrim⟩ := reads_iff.mp hreads
  obtain ⟨trimmed, htext⟩ := exists_trimEnd_append '/' parts.text
  by_contra hne
  have htwo : parts.text.toList = parts.protocol.toList ++ ("://".toList ++ parts.rest.toList) := by
    rw [Parts.text, hdropped, String.toList_intercalate]
    simp [List.intercalate_cons_cons]
  have hmore : others.text.toList = others.protocol.toList ++ ("://".toList ++
      ("://".intercalate (others.rest :: others.dropped)).toList) := by
    rw [Parts.text, String.toList_intercalate, String.toList_intercalate, List.map_cons,
      List.intercalate_cons_of_ne_nil (by simp), List.append_assoc]
  rw [htrim, hmore, htwo, List.append_assoc, List.append_assoc] at htext
  obtain ⟨-, hrest⟩ := unbordered_separator.eq_of_append h.protocol h'.protocol htext
  apply h.rest
  rw [hrest, String.toList_intercalate, List.map_cons]
  exact (infix_intercalate _ (by simpa using hne)).trans (List.prefix_append _ _).isInfix

/-- What is written of a url is read again as it was written exactly if it does not end with a
slash. -/
theorem formatUrl_again_iff (hlower : Lowers casing) (hreads : Reads s parts) :
    (∀ url, formatUrl casing s = some url → formatUrl casing url = some url) ↔
      ¬ parts.EndsInSlash := by
  have hseparated := (reads_iff.mp hreads).1
  have hlowered := hseparated.lower hlower
  have hkept := hlowered.kept
  have hformat : formatUrl casing s = some (parts.lower casing).kept.text :=
    formatUrl_eq_some.mpr ⟨parts, hreads, rfl⟩
  rw [hformat, ← Parts.endsInSlash_lower hlower, ← hlowered.getLast?_kept]
  constructor
  · intro h hlast
    obtain ⟨others, hothers, htext⟩ := formatUrl_eq_some.mp (h _ rfl)
    obtain ⟨hfree, htrim⟩ := reads_iff.mp hothers
    have hdropped := hkept.dropped_eq_nil rfl hothers
    rw [htext, (hfree.lower hlower).getLast?_kept, Parts.endsInSlash_lower hlower] at hlast
    have hslash := Parts.getLast?_text hdropped hlast
    rw [← htrim] at hslash
    exact getLast?_trimEnd '/' _ hslash
  · rintro hlast url h
    cases h
    refine formatUrl_eq_some.mpr ⟨_, hkept.reads_text hlast, congrArg Parts.text ?_⟩
    apply Parts.ext
    · exact (hlower.again _).symm
    · exact (hlower.again _).symm
    · exact (parts.lower casing).path_kept_kept.symm
    · rfl

theorem Parts.same_iff : (parts.lower asciiCasing) = (others.lower asciiCasing) ↔
    parts.Same others := by
  constructor
  · intro h
    obtain ⟨hprotocol, hhost, hpath, hdropped⟩ := Parts.mk.injEq .. ▸ h
    exact ⟨hprotocol, hhost, hpath, hdropped⟩
  · rintro ⟨hprotocol, hhost, hpath, hdropped⟩
    exact Parts.ext hprotocol hhost hpath hdropped

theorem Reads.normalize_eq_iff (hs : Reads s parts) (ht : Reads t others) :
    normalize s = normalize t ↔ parts.Same others := by
  have hfree := (reads_iff.mp hs).1.lower lowers_asciiCasing
  have hfree' := (reads_iff.mp ht).1.lower lowers_asciiCasing
  rw [hs.normalize_eq, ht.normalize_eq, ← Parts.same_iff]
  exact ⟨hfree.ext_text hfree', congrArg Parts.text⟩

theorem Reads.isSome_formatUrl (h : Reads s parts) : (formatUrl casing s).isSome = true :=
  Option.isSome_iff_exists.mpr ⟨_, formatUrl_eq_some.mpr ⟨parts, h, rfl⟩⟩

theorem Parts.Agree.of_kept (h : (parts.lower casing).kept = (others.lower casing).kept) :
    parts.Agree casing others where
  protocol := congrArg Parts.protocol h
  host := congrArg Parts.host h
  path := by
    have hpath := congrArg Parts.pathText h
    rwa [pathText_kept, pathText_kept] at hpath

theorem Parts.Agree.text_eq (h : parts.Agree casing others) :
    (parts.lower casing).kept.text = (others.lower casing).kept.text := by
  have hprotocol : (parts.lower casing).protocol = (others.lower casing).protocol := h.protocol
  have hhost : (parts.lower casing).host = (others.lower casing).host := h.host
  have hpath : (parts.lower casing).pathText = (others.lower casing).pathText := h.path
  rw [text_kept, text_kept, hprotocol, hhost, hpath]

theorem Reads.not_endsInSlash (h : Reads url parts) (hdropped : parts.dropped = []) :
    ¬ parts.EndsInSlash := by
  intro hslash
  have hlast := Parts.getLast?_text hdropped hslash
  rw [← (reads_iff.mp h).2] at hlast
  exact getLast?_trimEnd '/' url hlast

theorem Reads.path_eq_nil (h : Reads url parts) (hdropped : parts.dropped = [])
    (hpath : parts.pathText = "") : parts.path = [] := by
  by_contra hne
  apply getLast?_trimEnd '/' url
  have hempty : "/".intercalate parts.path = "" := hpath
  rw [(reads_iff.mp h).2, Parts.text_of_dropped hdropped, Parts.rest, Parts.intercalate_host,
    if_neg hne, hempty, ← String.append_assoc, ← String.append_assoc, String.append_empty,
    getLast?_append_of_ne (by decide)]
  rfl

/-- Urls with one separator and with ASCII letters in protocol and host fit. -/
theorem fits_of_ascii (hlower : Lowers casing)
    (hascii : ∀ url parts, url = s ∨ url = t → Reads url parts → parts.dropped = [] ∧
      ∀ c ∈ parts.protocol.toList ++ parts.host.toList, c.toNat < 128) : Fits casing s t := by
  intro parts others hparts hothers
  obtain ⟨hdropped, hchars⟩ := hascii s parts (.inl rfl) hparts
  obtain ⟨hdropped', hchars'⟩ := hascii t others (.inr rfl) hothers
  refine ⟨hparts.not_endsInSlash hdropped, fun hagree => ?_⟩
  have hprotocol := hagree.protocol
  have hhost := hagree.host
  rw [hlower.onAscii _ fun c hc => hchars c (List.mem_append_left _ hc),
    hlower.onAscii _ fun c hc => hchars' c (List.mem_append_left _ hc)] at hprotocol
  rw [hlower.onAscii _ fun c hc => hchars c (List.mem_append_right _ hc),
    hlower.onAscii _ fun c hc => hchars' c (List.mem_append_right _ hc)] at hhost
  refine ⟨hprotocol, hhost, ?_, hdropped.trans hdropped'.symm⟩
  by_cases hempty : parts.pathText = ""
  · rw [hparts.path_eq_nil hdropped hempty,
      hothers.path_eq_nil hdropped' (hagree.path.symm.trans hempty)]
  · have hne : parts.path ≠ [] := fun h => hempty (by rw [Parts.pathText, h]; rfl)
    have hne' : others.path ≠ [] := fun h =>
      hempty (hagree.path.trans (by rw [Parts.pathText, h]; rfl))
    exact intercalate_injOn unbordered_slash (reads_iff.mp hparts).1.path
      (reads_iff.mp hothers).1.path hne hne' hagree.path

/-- For all urls that are accepted: they have a normal form exactly if they fit. -/
theorem normalForm_iff (hlower : Lowers casing) (hs : (formatUrl casing s).isSome = true)
    (ht : (formatUrl casing t).isSome = true) : NormalForm casing s t ↔ Fits casing s t := by
  obtain ⟨formatted, hs⟩ := Option.isSome_iff_exists.mp hs
  obtain ⟨formatted', ht⟩ := Option.isSome_iff_exists.mp ht
  obtain ⟨parts, hparts, rfl⟩ := formatUrl_eq_some.mp hs
  obtain ⟨others, hothers, rfl⟩ := formatUrl_eq_some.mp ht
  have hfree := (reads_iff.mp hparts).1
  have hfree' := (reads_iff.mp hothers).1
  have hformat : formatUrl casing s = formatUrl casing t ↔ parts.Agree casing others := by
    rw [hs, ht, Option.some.injEq]
    have hkept := (hfree.lower hlower).kept
    have hkept' := (hfree'.lower hlower).kept
    exact ⟨fun htext => .of_kept (hkept.ext_text hkept' htext), fun hagree => hagree.text_eq⟩
  have hnormal := hparts.normalize_eq_iff hothers
  have hagree : parts.Same others → parts.Agree casing others := fun hsame =>
    { protocol := by rw [← hlower.ascii, hsame.protocol, hlower.ascii]
      host := by rw [← hlower.ascii, hsame.host, hlower.ascii]
      path := congrArg ("/".intercalate ·) hsame.path }
  constructor
  · rintro ⟨hagain, heq⟩ p q hp hq
    obtain rfl := hp.unique hparts
    obtain rfl := hq.unique hothers
    exact ⟨(formatUrl_again_iff hlower hparts).mp hagain,
      fun h => hnormal.mp (heq.mp (hformat.mpr h))⟩
  · intro hfits
    obtain ⟨hends, hsame⟩ := hfits parts others hparts hothers
    refine ⟨(formatUrl_again_iff hlower hparts).mpr hends, ?_⟩
    rw [hformat, hnormal]
    exact ⟨hsame, hagree⟩

/-- A mint, and the same mint with other letter cases and slashes. -/
theorem normalForm_iff_bitcoin :
    NormalForm asciiCasing "https://Mint.example/Bitcoin" "HTTPS://mint.EXAMPLE/Bitcoin//" := by
  have hs : Reads "https://Mint.example/Bitcoin" ⟨"https", "Mint.example", ["Bitcoin"], []⟩ :=
    ⟨"Mint.example/Bitcoin", by decide +kernel, by decide +kernel⟩
  have ht : Reads "HTTPS://mint.EXAMPLE/Bitcoin//" ⟨"HTTPS", "mint.EXAMPLE", ["Bitcoin"], []⟩ :=
    ⟨"mint.EXAMPLE/Bitcoin", by decide +kernel, by decide +kernel⟩
  apply (normalForm_iff lowers_asciiCasing hs.isSome_formatUrl ht.isSome_formatUrl).mpr
  intro parts others hparts hothers
  obtain rfl := hparts.unique hs
  obtain rfl := hothers.unique ht
  refine ⟨hparts.not_endsInSlash rfl, fun _ => ⟨?_, ?_, rfl, rfl⟩⟩
  · rw [← String.toList_inj, String.toList_map, String.toList_map]
    decide
  · rw [← String.toList_inj, String.toList_map, String.toList_map]
    decide

/-- Behind a second separator the path is dropped. -/
theorem not_normalForm : ¬ ∀ (casing : Casing) (s t : String), Lowers casing →
    (formatUrl casing s).isSome = true → (formatUrl casing t).isSome = true →
    NormalForm casing s t := by
  intro h
  have hs : Reads "https://mint.example/a://b" ⟨"https", "mint.example", ["a"], ["b"]⟩ :=
    ⟨"mint.example/a", by decide +kernel, by decide +kernel⟩
  have ht : Reads "https://mint.example/a" ⟨"https", "mint.example", ["a"], []⟩ :=
    ⟨"mint.example/a", by decide +kernel, by decide +kernel⟩
  have hform := h asciiCasing _ _ lowers_asciiCasing hs.isSome_formatUrl ht.isSome_formatUrl
  have hsame : formatUrl asciiCasing "https://mint.example/a://b" =
      formatUrl asciiCasing "https://mint.example/a" :=
    (formatUrl_eq_some.mpr ⟨_, hs, rfl⟩).trans (formatUrl_eq_some.mpr ⟨_, ht, rfl⟩).symm
  have hnormal := (hs.normalize_eq_iff ht).mp (hform.eq_iff.mp hsame)
  exact absurd hnormal.dropped (List.cons_ne_nil _ _)

end Parts

end MintUrl

end Cdk
