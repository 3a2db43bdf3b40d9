import Mathlib.Algebra.Order.Ring.Nat
import Mathlib.Data.Nat.Digits.Defs
import Mathlib.Data.List.Basic

/-!
# Names made of text

The operations on text that object names are put together and taken apart with:
parts between separators, prefixes and suffixes, replaced occurrences, decimal
numbers as `u64::from_str` reads them and numbers of a fixed width.
-/

namespace DurableActors.Verified.Text

variable {c : Char} {directory name p pattern s sep : String}

/-- `s.rsplit(c).next()`: the part after the last `c`. -/
def lastPart (c : Char) (s : String) : String :=
  .ofList (s.toList.reverse.takeWhile (· ≠ c)).reverse

/-- `s.rsplit_once(c)`. -/
def rsplitOnce (c : Char) (s : String) : Option (String × String) :=
  match s.toList.reverse.dropWhile (· ≠ c) with
  | [] => none
  | _ :: rest => some (.ofList rest.reverse, lastPart c s)

/-- `s.rsplit(c).nth(1)`: the part before the last one. -/
def secondLastPart (c : Char) (s : String) : Option String :=
  (rsplitOnce c s).map fun split => lastPart c split.1

/-- `s.strip_suffix(suffix)`. -/
def stripSuffix (suffix s : String) : Option String :=
  if suffix.toList <:+ s.toList then
    some (.ofList (s.toList.take (s.toList.length - suffix.toList.length)))
  else none

/-- `s.parse::<u64>()`. -/
def parseU64 (s : String) : Option Nat :=
  let digits := match s.toList with
    | '+' :: rest => rest
    | chars => chars
  if digits ≠ [] ∧ digits.all Char.isDigit = true ∧ Nat.ofDigitChars 10 digits 0 < 2 ^ 64 then
    some (Nat.ofDigitChars 10 digits 0)
  else none

/-! ## Taking names apart -/

theorem lastPart_append (hname : c ∉ name.toList) :
    lastPart c (directory ++ (String.singleton c ++ name)) = name := by
  have htake : (name.toList.reverse ++ (c :: directory.toList.reverse)).takeWhile (· ≠ c) =
      name.toList.reverse := by
    rw [List.takeWhile_append_of_pos]
    · simp
    · intro a ha
      have hne : a ≠ c := fun h => hname (h ▸ List.mem_reverse.mp ha)
      simpa using hne
  have hlist : (directory ++ (String.singleton c ++ name)).toList.reverse =
      name.toList.reverse ++ (c :: directory.toList.reverse) := by
    simp [String.toList_append]
  rw [lastPart, hlist, htake, List.reverse_reverse, String.ofList_toList]

theorem rsplitOnce_append (hname : c ∉ name.toList) :
    rsplitOnce c (directory ++ (String.singleton c ++ name)) = some (directory, name) := by
  have hlist : (directory ++ (String.singleton c ++ name)).toList.reverse =
      name.toList.reverse ++ (c :: directory.toList.reverse) := by
    simp [String.toList_append]
  have hdrop : (name.toList.reverse ++ (c :: directory.toList.reverse)).dropWhile (· ≠ c) =
      c :: directory.toList.reverse := by
    rw [List.dropWhile_append_of_pos]
    · simp
    · intro a ha
      have hne : a ≠ c := fun h => hname (h ▸ List.mem_reverse.mp ha)
      simpa using hne
  rw [rsplitOnce, hlist, hdrop]
  simp only [List.reverse_reverse, String.ofList_toList, lastPart_append hname]

theorem stripSuffix_append (name suffix : String) :
    stripSuffix suffix (name ++ suffix) = some name := by
  have hsuffix : suffix.toList <:+ (name ++ suffix).toList := by
    rw [String.toList_append]
    exact List.suffix_append _ _
  rw [stripSuffix, if_pos hsuffix, String.toList_append, List.length_append,
    Nat.add_sub_cancel, List.take_left', String.ofList_toList]
  rfl

theorem toList_toString (n : Nat) : (toString n).toList = Nat.toDigits 10 n := by
  show n.repr.toList = _
  rw [Nat.repr_eq_ofList_toDigits, String.toList_ofList]

theorem toString_inj {n m : Nat} (h : toString n = toString m) : n = m := by
  have hdigits : Nat.toDigits 10 n = Nat.toDigits 10 m := by
    rw [← toList_toString, ← toList_toString, h]
  calc n = Nat.ofDigitChars 10 (Nat.toDigits 10 n) 0 :=
        (Nat.ofDigitChars_toDigits (by omega) (by omega)).symm
    _ = Nat.ofDigitChars 10 (Nat.toDigits 10 m) 0 := by rw [hdigits]
    _ = m := Nat.ofDigitChars_toDigits (by omega) (by omega)

/-- A number is read back from its decimal text. -/
theorem parseU64_toString {n : Nat} (hn : n < 2 ^ 64) : parseU64 (toString n) = some n := by
  have hvalue : Nat.ofDigitChars 10 (Nat.toDigits 10 n) 0 = n :=
    Nat.ofDigitChars_toDigits (by decide) (by decide)
  have hdigits : ∀ a ∈ Nat.toDigits 10 n, a.isDigit = true := fun a ha =>
    Nat.isDigit_of_mem_toDigits (by decide) (by decide) ha
  have hne : Nat.toDigits 10 n ≠ [] := Nat.toDigits_ne_nil
  have hplus : (match Nat.toDigits 10 n with
      | '+' :: rest => rest
      | chars => chars) = Nat.toDigits 10 n := by
    split
    · rename_i rest h
      have hdigit := hdigits '+' (by rw [h]; exact List.mem_cons_self)
      exact absurd hdigit (by decide)
    · rfl
  simp only [parseU64, toList_toString, hplus, hvalue]
  rw [if_pos ⟨hne, List.all_eq_true.mpr hdigits, hn⟩]

/-- A decimal number contains no separator that is not a digit. -/
theorem not_mem_toString (hc : c.isDigit = false) (n : Nat) : c ∉ (toString n).toList := by
  rw [toList_toString]
  intro hmem
  have hdigit := Nat.isDigit_of_mem_toDigits (by decide) (by decide) hmem
  simp [hc] at hdigit

/-! ## Prefixes and separators -/

/-- `s.strip_prefix(p)`. -/
def stripPrefix (p s : String) : Option String :=
  if p.toList <+: s.toList then some (.ofList (s.toList.drop p.toList.length)) else none

/-- `s.split(c)`. -/
def split (c : Char) (s : String) : List String := (s.toList.splitOn c).map .ofList

def splitnChars (c : Char) : Nat → List Char → List (List Char)
  | 0, _ => []
  | 1, s => [s]
  | n + 2, s => match s.dropWhile (· ≠ c) with
    | [] => [s]
    | _ :: rest => s.takeWhile (· ≠ c) :: splitnChars c (n + 1) rest

/-- `s.splitn(n, c)`: at most `n` parts, the last one with what is left. -/
def splitn (n : Nat) (c : Char) (s : String) : List String := (splitnChars c n s.toList).map .ofList

/-- `s.split_once(c)`. -/
def splitOnce (c : Char) (s : String) : Option (String × String) :=
  match s.toList.dropWhile (· ≠ c) with
  | [] => none
  | _ :: rest => some (.ofList (s.toList.takeWhile (· ≠ c)), .ofList rest)

theorem stripPrefix_append (p s : String) : stripPrefix p (p ++ s) = some s := by
  have hstarts : p.toList <+: (p ++ s).toList := by
    rw [String.toList_append]
    exact List.prefix_append _ _
  rw [stripPrefix, if_pos hstarts, String.toList_append, List.drop_left, String.ofList_toList]

theorem toList_separated (hsep : sep.toList = [c]) (p s : String) :
    (p ++ (sep ++ s)).toList = p.toList ++ c :: s.toList := by
  rw [String.toList_append, String.toList_append, hsep, List.singleton_append]

theorem split_append (hsep : sep.toList = [c]) (hp : c ∉ p.toList) (s : String) :
    split c (p ++ (sep ++ s)) = p :: split c s := by
  rw [split, toList_separated hsep, List.splitOn_append_cons_self_of_not_mem hp, List.map_cons,
    String.ofList_toList]
  rfl

theorem split_of_not_mem (hs : c ∉ s.toList) : split c s = [s] := by
  rw [split, List.splitOn_eq_singleton hs, List.map_singleton, String.ofList_toList]

theorem dropWhile_separated {p : List Char} (hp : c ∉ p) (s : List Char) :
    (p ++ c :: s).dropWhile (· ≠ c) = c :: s := by
  rw [List.dropWhile_append_of_pos]
  · simp
  · intro a ha
    have hne : a ≠ c := fun h => hp (h ▸ ha)
    simpa using hne

theorem takeWhile_separated {p : List Char} (hp : c ∉ p) (s : List Char) :
    (p ++ c :: s).takeWhile (· ≠ c) = p := by
  rw [List.takeWhile_append_of_pos]
  · simp
  · intro a ha
    have hne : a ≠ c := fun h => hp (h ▸ ha)
    simpa using hne

theorem splitn_one (c : Char) (s : String) : splitn 1 c s = [s] := by
  rw [splitn, splitnChars, List.map_singleton, String.ofList_toList]

theorem splitn_append (hsep : sep.toList = [c]) (hp : c ∉ p.toList) (n : Nat) (s : String) :
    splitn (n + 2) c (p ++ (sep ++ s)) = p :: splitn (n + 1) c s := by
  rw [splitn, toList_separated hsep, splitnChars, dropWhile_separated hp]
  simp only [takeWhile_separated hp, List.map_cons, String.ofList_toList]
  rfl

theorem eq_of_separated_isPrefix {p q s t : List Char} (hp : c ∉ p) (hq : c ∉ q)
    (h : p ++ c :: s <+: q ++ c :: t) : p = q ∧ s <+: t := by
  induction p generalizing q with
  | nil =>
    cases q with
    | nil => exact ⟨rfl, (List.cons_prefix_cons.mp h).2⟩
    | cons d q =>
      have hd : c = d := (List.cons_prefix_cons.mp h).1
      exact absurd (hd ▸ List.mem_cons_self) hq
  | cons a p ih =>
    cases q with
    | nil =>
      have ha : a = c := (List.cons_prefix_cons.mp h).1
      exact absurd (ha ▸ List.mem_cons_self) hp
    | cons d q =>
      obtain ⟨hd, htail⟩ := List.cons_prefix_cons.mp h
      obtain ⟨heq, hrest⟩ := ih (fun hmem => hp (List.mem_cons_of_mem a hmem))
        (fun hmem => hq (List.mem_cons_of_mem d hmem)) htail
      exact ⟨by rw [hd, heq], hrest⟩

/-! ## Rewriting names -/

/-- `s.replace(c, d)` for single characters. -/
def replaceChar (c d : Char) (s : String) : String :=
  .ofList (s.toList.map fun x => if x = c then d else x)

def replaceFirstChars (pattern text : List Char) : List Char → List Char
  | [] => []
  | c :: s =>
    if pattern <+: c :: s then text ++ (c :: s).drop pattern.length
    else c :: replaceFirstChars pattern text s

/-- `s.replacen(pattern, text, 1)`, for a pattern that is not empty. -/
def replaceFirst (pattern text s : String) : String :=
  .ofList (replaceFirstChars pattern.toList text.toList s.toList)

/-- The text is scanned once; `skip` characters belong to the last occurrence. -/
def replaceChars (pattern text : List Char) : Nat → List Char → List Char
  | _, [] => []
  | 0, c :: s =>
    if pattern <+: c :: s then text ++ replaceChars pattern text (pattern.length - 1) s
    else c :: replaceChars pattern text 0 s
  | skip + 1, _ :: s => replaceChars pattern text skip s

/-- `s.replace(pattern, text)`, for a pattern that is not empty. -/
def replace (pattern text s : String) : String :=
  .ofList (replaceChars pattern.toList text.toList 0 s.toList)

def trimEndChars (pattern : List Char) : Nat → List Char → List Char
  | 0, s => s
  | n + 1, s =>
    if pattern <:+ s then trimEndChars pattern n (s.take (s.length - pattern.length)) else s

/-- `s.trim_end_matches(pattern)`, for a pattern that is not empty. -/
def trimEndMatches (pattern s : String) : String :=
  .ofList (trimEndChars pattern.toList s.toList.length s.toList)

/-- What stands before the first character of a pattern is not rewritten. -/
theorem replaceChars_append {pattern text p : List Char} (hp : c ∉ p) (s : List Char) :
    replaceChars (c :: pattern) text 0 (p ++ s) = p ++ replaceChars (c :: pattern) text 0 s := by
  induction p with
  | nil => rfl
  | cons d p ih =>
    have hd : ¬ (c :: pattern) <+: (d :: (p ++ s)) := by
      rw [List.cons_prefix_cons]
      intro h
      exact hp (h.1 ▸ List.mem_cons_self)
    rw [List.cons_append, replaceChars, if_neg hd, ih fun h => hp (List.mem_cons_of_mem d h)]
    rfl

/-- A name whose beginning has no first character of the pattern keeps it. -/
theorem replace_append {rest : List Char} (hpattern : pattern.toList = c :: rest)
    (text : String) (hp : c ∉ p.toList) (s : String) :
    replace pattern text (p ++ s) = p ++ replace pattern text s := by
  rw [← String.toList_inj]
  simp only [replace, String.toList_ofList, String.toList_append, hpattern, replaceChars_append hp]

theorem trimEndChars_append (pattern : List Char) {p : List Char} (hp : c ∉ p) (n : Nat)
    (s : List Char) : ∃ t, trimEndChars (c :: pattern) n (p ++ s) = p ++ t := by
  induction n generalizing s with
  | zero => exact ⟨s, rfl⟩
  | succ n ih =>
    rw [trimEndChars]
    by_cases hsuffix : (c :: pattern) <:+ p ++ s
    · rw [if_pos hsuffix]
      -- the occurrence does not reach into `p`, or `c` would stand there
      have hlength : (c :: pattern).length ≤ s.length := by
        by_contra hlt
        obtain ⟨start, hstart⟩ := hsuffix
        have hstart' : start.length < p.length := by
          have := congrArg List.length hstart
          simp only [List.length_append, List.length_cons] at this hlt
          omega
        have hat : (p ++ s)[start.length]? = some c := by
          rw [← hstart, List.getElem?_append_right (Nat.le_refl _), Nat.sub_self]
          rfl
        rw [List.getElem?_append_left hstart'] at hat
        exact hp (List.mem_of_getElem? hat)
      have htake : (p ++ s).take ((p ++ s).length - (c :: pattern).length) =
          p ++ s.take (s.length - (c :: pattern).length) := by
        rw [List.length_append, Nat.add_sub_assoc hlength, List.take_length_add_append]
      rw [htake]
      exact ih _
    · rw [if_neg hsuffix]
      exact ⟨s, rfl⟩

theorem trimEndMatches_append {rest : List Char} (hpattern : pattern.toList = c :: rest)
    (hp : c ∉ p.toList) (s : String) : ∃ t, trimEndMatches pattern (p ++ s) = p ++ t := by
  obtain ⟨t, ht⟩ := trimEndChars_append rest hp (p ++ s).toList.length s.toList
  refine ⟨.ofList t, ?_⟩
  rw [← String.toList_inj]
  simp only [trimEndMatches, String.toList_ofList, String.toList_append, hpattern] at ht ⊢
  exact ht

/-! ## Numbers of a fixed width -/

/-- `{n:0width$}` in base 10, and `{n:0widthx}` in base 16. -/
def padded (base width n : Nat) : String :=
  let digits := Nat.toDigits base n
  .ofList (List.replicate (width - digits.length) '0' ++ digits)

theorem mem_toDigits {base : Nat} (hbase : 1 < base) (n : Nat)
    (hc : c ∈ Nat.toDigits base n) : ∃ d < base, c = Nat.digitChar d := by
  induction n using Nat.strongRecOn with
  | ind n ih =>
    rw [Nat.toDigits_eq_if hbase] at hc
    split at hc
    · rename_i hlt
      exact ⟨n, hlt, List.mem_singleton.mp hc⟩
    · rename_i hge
      rcases List.mem_append.mp hc with hc | hc
      · exact ih (n / base) (Nat.div_lt_self (by omega) hbase) hc
      · exact ⟨n % base, Nat.mod_lt _ (by omega), List.mem_singleton.mp hc⟩

theorem mem_padded {base width n : Nat} (hbase : 1 < base)
    (hc : c ∈ (padded base width n).toList) : ∃ d < base, c = Nat.digitChar d := by
  rw [padded, String.toList_ofList, List.mem_append] at hc
  rcases hc with hc | hc
  · exact ⟨0, by omega, List.eq_of_mem_replicate hc⟩
  · exact mem_toDigits hbase n hc

theorem padded_ne_nil (base width n : Nat) : (padded base width n).toList ≠ [] := by
  rw [padded, String.toList_ofList]
  exact List.append_ne_nil_of_right_ne_nil _ Nat.toDigits_ne_nil

/-! ## Bytes -/

/-- `s.as_bytes()`. -/
def bytes (s : String) : List UInt8 := s.toByteArray.data.toList

/-- `String::from_utf8(bytes)`. -/
def fromUtf8 (bytes : List UInt8) : Option String := String.fromUTF8? ⟨bytes.toArray⟩

theorem fromUtf8_bytes (s : String) : fromUtf8 (bytes s) = some s := by
  have hbytes : (⟨(bytes s).toArray⟩ : ByteArray) = s.toByteArray := by
    simp [bytes]
  rw [fromUtf8, hbytes, String.fromUTF8?, dif_pos s.isValidUTF8]
  rfl

theorem bytes_inj {s' : String} (h : bytes s = bytes s') : s = s' := by
  apply Option.some.inj
  rw [← fromUtf8_bytes s, ← fromUtf8_bytes s', h]

end DurableActors.Verified.Text
