import Mathlib.Data.List.TakeWhile

/-!
# The parts of a URI

`split` cuts a text at the delimiters of RFC 3986: the fragment from the first `#` on, the query from the first `?` of what is
before it, then a scheme up to `://` with the authority after it and the path from the next `/` on. A text without a scheme is
read as the target of an HTTP request: a path when it begins with `/` or is a lone `*`, an authority otherwise. `text` puts the
parts together again.
-/

namespace UriText

/-- The parts of a text. -/
structure Parts where
  scheme : Option (List Char)
  authority : Option (List Char)
  path : List Char
  query : Option (List Char)
  fragment : Option (List Char)
deriving DecidableEq, Repr

/-- What is before the first `d` of a text, and what is after it where there is one. -/
def cut (d : Char) (s : List Char) : List Char × Option (List Char) :=
  (s.takeWhile (· ≠ d), match s.dropWhile (· ≠ d) with | [] => none | _ :: rest => some rest)

/-- A character before the delimiter that ends a scheme. -/
def isSchemeChar (c : Char) : Bool := c ≠ ':' && c ≠ '/'

/-- The authority up to the first `/`, and the path from there on. -/
def afterScheme (scheme : Option (List Char)) (s : List Char) : Parts :=
  { scheme := scheme, authority := some (s.takeWhile (· ≠ '/')), path := s.dropWhile (· ≠ '/'), query := none, fragment := none }

/-- The scheme, the authority and the path of a text without query and fragment. -/
def hierarchy (s : List Char) : Parts :=
  match s.dropWhile isSchemeChar with
  | ':' :: '/' :: '/' :: rest => afterScheme (some (s.takeWhile isSchemeChar)) rest
  | _ =>
    if s.head? = some '/' ∨ s = ['*'] then
      { scheme := none, authority := none, path := s, query := none, fragment := none }
    else afterScheme none s

/-- The parts of a text. -/
def split (s : List Char) : Parts :=
  let (beforeFragment, fragment) := cut '#' s
  let (beforeQuery, query) := cut '?' beforeFragment
  { hierarchy beforeQuery with query := query, fragment := fragment }

/-- A part behind its delimiter. -/
def behind (d : Char) : Option (List Char) → List Char
  | some part => d :: part
  | none => []

/-- A scheme before its delimiter. -/
def schemeText : Option (List Char) → List Char
  | some scheme => scheme ++ [':', '/', '/']
  | none => []

/-- The text of some parts. -/
def Parts.text (p : Parts) : List Char :=
  schemeText p.scheme ++ p.authority.getD [] ++ p.path ++ behind '?' p.query ++ behind '#' p.fragment

/-! ## Cutting at a delimiter -/

variable {d : Char} {s : List Char}

theorem cut_of_notMem (h : d ∉ s) : cut d s = (s, none) := by
  have hall : ∀ c ∈ s, decide (c ≠ d) = true := fun c hc => decide_eq_true fun heq => h (heq ▸ hc)
  unfold cut
  rw [List.takeWhile_eq_self_iff.2 hall, List.dropWhile_eq_nil_iff.2 hall]

/-- Nothing is cut off exactly where the delimiter is missing. -/
theorem cut_eq_none_iff : (cut d s).2 = none ↔ d ∉ s := by
  constructor
  · intro h hmem
    unfold cut at h
    cases hrest : s.dropWhile (· ≠ d) with
    | nil =>
      have := List.dropWhile_eq_nil_iff.1 hrest d hmem
      simp at this
    | cons c rest =>
      rw [hrest] at h
      cases h
  · intro h
    rw [cut_of_notMem h]

/-- A text without a delimiter, up to the first one. -/
theorem takeWhile_append_stop {p : Char → Bool} {x y : List Char} (hx : ∀ c ∈ x, p c = true)
    (hy : ∀ c ∈ y.head?, p c = false) : (x ++ y).takeWhile p = x ∧ (x ++ y).dropWhile p = y := by
  rw [List.takeWhile_append_of_pos hx, List.dropWhile_append_of_pos hx]
  cases y with
  | nil => exact ⟨List.append_nil _, rfl⟩
  | cons c rest =>
    have hc : p c = false := hy c rfl
    rw [List.takeWhile_cons_of_neg (by simp [hc]), List.dropWhile_cons_of_neg (by simp [hc])]
    exact ⟨List.append_nil _, rfl⟩

/-! ## The parts of a text -/

theorem afterScheme_text (scheme : Option (List Char)) (s : List Char) :
    (afterScheme scheme s).text = schemeText scheme ++ s := by
  simp [Parts.text, afterScheme, behind]

/-- An authority before a path. -/
theorem afterScheme_append (scheme : Option (List Char)) {authority path : List Char} (hauthority : '/' ∉ authority)
    (hpath : path.head? = none ∨ path.head? = some '/') :
    afterScheme scheme (authority ++ path) =
      { scheme := scheme, authority := some authority, path := path, query := none, fragment := none } := by
  have hstop := takeWhile_append_stop (p := (· ≠ '/')) (x := authority) (y := path)
    (fun c hc => decide_eq_true fun heq => hauthority (heq ▸ hc)) (fun c hc => by
      rcases hpath with hnone | hslash
      · rw [hnone] at hc
        cases hc
      · rw [hslash] at hc
        cases hc
        rfl)
  unfold afterScheme
  rw [hstop.1, hstop.2]

/-- The cases of a text without query and fragment. -/
theorem hierarchy_cases (s : List Char) :
    (∃ scheme rest, (∀ c ∈ scheme, isSchemeChar c = true) ∧ s = scheme ++ [':', '/', '/'] ++ rest ∧
      hierarchy s = afterScheme (some scheme) rest) ∨
    ((s.head? = some '/' ∨ s = ['*']) ∧
      hierarchy s = { scheme := none, authority := none, path := s, query := none, fragment := none }) ∨
    hierarchy s = afterScheme none s := by
  have htext := List.takeWhile_append_dropWhile (p := isSchemeChar) (l := s)
  unfold hierarchy
  split
  · rename_i rest hdrop
    refine Or.inl ⟨s.takeWhile isSchemeChar, rest, fun c hc => List.mem_takeWhile_imp hc, ?_, rfl⟩
    rw [hdrop] at htext
    conv => lhs; rw [← htext]
    simp
  · split
    · rename_i hpath
      exact Or.inr (Or.inl ⟨hpath, rfl⟩)
    · exact Or.inr (Or.inr rfl)

/-- The parts of a text without query and fragment, put together again. -/
theorem hierarchy_text (s : List Char) : (hierarchy s).text = s := by
  rcases hierarchy_cases s with ⟨scheme, rest, _, hs, heq⟩ | ⟨_, heq⟩ | heq
  · rw [heq, afterScheme_text, hs, schemeText]
  · rw [heq]
    simp [Parts.text, schemeText, behind]
  · rw [heq, afterScheme_text, schemeText, List.nil_append]

/-- A scheme is some of a text, free of the delimiter that ends it. -/
theorem hierarchy_scheme (s : List Char) :
    ∀ scheme ∈ (hierarchy s).scheme, ∀ c ∈ scheme, isSchemeChar c = true ∧ c ∈ s := by
  rcases hierarchy_cases s with ⟨scheme, rest, hall, hs, heq⟩ | ⟨_, heq⟩ | heq
  · rw [heq]
    rintro _ ⟨⟩ c hc
    refine ⟨hall c hc, ?_⟩
    rw [hs, List.append_assoc]
    exact List.mem_append_left _ hc
  · rw [heq]
    exact nofun
  · rw [heq]
    exact nofun

/-- A text without query and fragment has no such parts. -/
theorem hierarchy_bare (s : List Char) : (hierarchy s).query = none ∧ (hierarchy s).fragment = none := by
  rcases hierarchy_cases s with ⟨_, _, _, _, heq⟩ | ⟨_, heq⟩ | heq <;> rw [heq] <;> exact ⟨rfl, rfl⟩

/-- A text without the delimiters of query and fragment is all hierarchy. -/
theorem split_of_notMem (hfragment : '#' ∉ s) (hquery : '?' ∉ s) : split s = hierarchy s := by
  have hbare := hierarchy_bare s
  have hcut := cut_of_notMem hquery
  unfold split
  rw [cut_of_notMem hfragment]
  show { hierarchy (cut '?' s).1 with query := (cut '?' s).2, fragment := none } = hierarchy s
  rw [hcut]
  generalize hierarchy s = parts at hbare ⊢
  cases parts
  cases hbare.1
  cases hbare.2
  rfl

theorem split_fragment_eq_none_iff : (split s).fragment = none ↔ '#' ∉ s := cut_eq_none_iff

/-- Without a fragment, the query is what a `?` begins. -/
theorem split_query_eq_none_iff (hfragment : '#' ∉ s) : (split s).query = none ↔ '?' ∉ s := by
  have hcut := cut_of_notMem hfragment
  unfold split
  rw [hcut]
  exact cut_eq_none_iff

/-- Behind a scheme come an authority and a path. -/
theorem hierarchy_of_scheme {scheme authority path : List Char} (hscheme : ∀ c ∈ scheme, isSchemeChar c = true)
    (hauthority : '/' ∉ authority) (hpath : path.head? = none ∨ path.head? = some '/') :
    hierarchy (schemeText (some scheme) ++ (authority ++ path)) =
      { scheme := some scheme, authority := some authority, path := path, query := none, fragment := none } := by
  have hstop := takeWhile_append_stop (y := ':' :: '/' :: '/' :: (authority ++ path)) hscheme (by simp [isSchemeChar])
  have htext : schemeText (some scheme) ++ (authority ++ path) = scheme ++ ':' :: '/' :: '/' :: (authority ++ path) := by
    simp [schemeText]
  unfold hierarchy
  rw [htext, hstop.1, hstop.2]
  exact afterScheme_append _ hauthority hpath

/-- A text with one `/` at most, at its end, is an authority and a root path at most. -/
theorem hierarchy_of_authority {authority path : List Char} (hne : authority ≠ []) (hauthority : '/' ∉ authority)
    (hpath : path = [] ∨ path = ['/']) (hstar : authority ++ path ≠ ['*']) :
    hierarchy (authority ++ path) =
      { scheme := none, authority := some authority, path := path, query := none, fragment := none } := by
  have hhead : path.head? = none ∨ path.head? = some '/' := by
    rcases hpath with rfl | rfl
    · exact Or.inl rfl
    · exact Or.inr rfl
  rcases hierarchy_cases (authority ++ path) with ⟨scheme, rest, _, hs, _⟩ | ⟨hpath', _⟩ | heq
  · -- The two slashes behind a scheme are one too many.
    have hcount := congrArg (List.count '/') hs
    have hzero := List.count_eq_zero.2 hauthority
    simp only [List.count_append, hzero] at hcount
    rcases hpath with rfl | rfl
    · simp at hcount
      omega
    · simp at hcount
      omega
  · rcases hpath' with hslash | hs
    · cases authority with
      | nil => exact absurd rfl hne
      | cons c cs =>
        cases hslash
        exact absurd (List.mem_cons_self ..) hauthority
    · exact absurd hs hstar
  · rw [heq, afterScheme_append none hauthority hhead]

end UriText
