import SqlServerMcp.Decimals

/-!
The texts that name a host: a domain name, an IPv4 address in four decimals, and an
IPv6 literal in groups of hexadecimal digits. Only the last one has colons in it,
and what follows its last colon is empty, a group, or an IPv4 address.
-/
namespace SqlServerMcp.HostTexts

open Decimals Text

def isNameChar (c : Char) : Bool := c.isAlphanum || c = '-' || c = '_'

def isHexDigit (c : Char) : Bool :=
  c.isDigit || ('a' ≤ c && c ≤ 'f') || ('A' ≤ c && c ≤ 'F')

/-- Labels with dots between them, and perhaps a dot after the last one. -/
def IsDnsName (l : List Char) : Prop :=
  ∃ labels : List (List Char), labels ≠ [] ∧
    (∀ label ∈ labels, label ≠ [] ∧ ∀ c ∈ label, isNameChar c) ∧
      (l = ['.'].intercalate labels ∨ l = ['.'].intercalate labels ++ ['.'])

def ipv4Text (a b c d : UInt8) : List Char :=
  ['.'].intercalate ([a, b, c, d].map fun octet => (toString octet.toNat).toList)

def IsIpv4 (l : List Char) : Prop := ∃ a b c d, l = ipv4Text a b c d

/-- One to four hexadecimal digits. -/
def IsGroup (l : List Char) : Prop := l ≠ [] ∧ l.length ≤ 4 ∧ ∀ c ∈ l, isHexDigit c

/-- Groups for a number of 16-bit pieces. An IPv4 address may stand for the last
two of them. -/
inductive Groups : List (List Char) → ℕ → Prop
  | nil : Groups [] 0
  | ipv4 {l : List Char} : IsIpv4 l → Groups [l] 2
  | cons {l : List Char} {rest : List (List Char)} {n : ℕ} :
      IsGroup l → Groups rest n → Groups (l :: rest) (n + 1)

/-- All eight pieces, or two colons in the place of one or more of them. -/
inductive IsIpv6 : List Char → Prop
  | full {groups : List (List Char)} : Groups groups 8 → IsIpv6 ([':'].intercalate groups)
  | short {left right : List (List Char)} {n : ℕ} :
      (∀ l ∈ left, IsGroup l) → Groups right n → left.length + n ≤ 7 →
        IsIpv6 ([':'].intercalate left ++ ':' :: ':' :: [':'].intercalate right)

/-- What follows the last colon is a decimal number. -/
def EndsInDecimal (l : List Char) : Prop :=
  ∃ before digits, l = before ++ ':' :: digits ∧ digits ≠ [] ∧ ∀ c ∈ digits, c.isDigit

theorem mem_intercalate {c : Char} {sep : Char} {words : List (List Char)}
    (h : c ∈ [sep].intercalate words) : c = sep ∨ ∃ word ∈ words, c ∈ word := by
  induction words with
  | nil => simp [List.intercalate] at h
  | cons word rest ih =>
    cases rest with
    | nil =>
      have hword : c ∈ word := by simpa [List.intercalate] using h
      exact Or.inr ⟨word, List.mem_cons_self, hword⟩
    | cons next rest =>
      have hstep : [sep].intercalate (word :: next :: rest) =
          word ++ sep :: [sep].intercalate (next :: rest) := by simp [List.intercalate]
      rw [hstep, List.mem_append, List.mem_cons] at h
      rcases h with hword | rfl | hrest
      · exact Or.inr ⟨word, List.mem_cons_self, hword⟩
      · exact Or.inl rfl
      · rcases ih hrest with hsep | ⟨other, hother, hc⟩
        · exact Or.inl hsep
        · exact Or.inr ⟨other, List.mem_cons_of_mem _ hother, hc⟩

theorem isNameChar_ne_colon {c : Char} (h : isNameChar c = true) : c ≠ ':' := by
  intro h'
  subst h'
  revert h
  decide

theorem colon_notMem_dnsName {l : List Char} (h : IsDnsName l) : ':' ∉ l := by
  obtain ⟨labels, -, hlabels, hl⟩ := h
  have hjoined : ':' ∉ ['.'].intercalate labels := by
    intro hmem
    rcases mem_intercalate hmem with hdot | ⟨label, hlabel, hc⟩
    · exact absurd hdot (by decide)
    · exact isNameChar_ne_colon ((hlabels label hlabel).2 _ hc) rfl
  rcases hl with rfl | rfl
  · exact hjoined
  · rw [List.mem_append, not_or]
    exact ⟨hjoined, by decide⟩

theorem mem_ipv4Text {a b c d : UInt8} {x : Char} (h : x ∈ ipv4Text a b c d) :
    x = '.' ∨ x.isDigit := by
  rcases mem_intercalate h with hdot | ⟨word, hword, hx⟩
  · exact Or.inl hdot
  · obtain ⟨octet, -, rfl⟩ := List.mem_map.mp hword
    exact Or.inr (isDigit_of_mem_toString hx)

theorem dot_mem_ipv4Text (a b c d : UInt8) : '.' ∈ ipv4Text a b c d := by
  simp [ipv4Text, List.intercalate]

theorem isHexDigit_plain {c : Char} (h : isHexDigit c = true) : c ≠ ':' ∧ c ≠ '+' ∧ c ≠ '-' := by
  refine ⟨?_, ?_, ?_⟩
  all_goals
    intro h'
    subst h'
    revert h
    decide

theorem length_of_groups {groups : List (List Char)} {n : ℕ} (h : Groups groups n) :
    n ≤ groups.length + 1 := by
  induction h with
  | nil => exact Nat.zero_le _
  | ipv4 _ => exact Nat.le_refl _
  | cons _ _ ih => exact Nat.succ_le_succ ih

theorem group_of_mem {groups : List (List Char)} {n : ℕ} (h : Groups groups n) :
    ∀ l ∈ groups, IsGroup l ∨ IsIpv4 l := by
  induction h with
  | nil => exact nofun
  | ipv4 hl =>
    intro l hmem
    rw [List.mem_singleton.mp hmem]
    exact Or.inr hl
  | cons hl _ ih =>
    intro l hmem
    rcases List.mem_cons.mp hmem with rfl | hrest
    · exact Or.inl hl
    · exact ih l hrest

/-- The last of several words follows the last separator. -/
theorem exists_last_word (sep : Char) (word next : List Char) (rest : List (List Char)) :
    ∃ before last, [sep].intercalate (word :: next :: rest) = before ++ sep :: last ∧
      last ∈ next :: rest := by
  induction rest generalizing word next with
  | nil => exact ⟨word, next, by simp [List.intercalate], List.mem_cons_self⟩
  | cons third rest ih =>
    obtain ⟨before, last, heq, hlast⟩ := ih next third
    refine ⟨word ++ sep :: before, last, ?_, List.mem_cons_of_mem _ hlast⟩
    have hstep : [sep].intercalate (word :: next :: third :: rest) =
        word ++ sep :: [sep].intercalate (next :: third :: rest) := by simp [List.intercalate]
    rw [hstep, heq, List.append_assoc, List.cons_append]

/-- What follows the last colon of an IPv6 literal. -/
theorem exists_last_piece {l : List Char} (h : IsIpv6 l) :
    ∃ before last, l = before ++ ':' :: last ∧ (last = [] ∨ IsGroup last ∨ IsIpv4 last) := by
  cases h with
  | @full groups hgroups =>
    have hlength := length_of_groups hgroups
    match groups, hgroups, hlength with
    | word :: next :: rest, hgroups, _ =>
      obtain ⟨before, last, heq, hlast⟩ := exists_last_word ':' word next rest
      exact ⟨before, last, heq, Or.inr (group_of_mem hgroups last (List.mem_cons_of_mem _ hlast))⟩
  | @short left right n _ hright _ =>
    match right, hright with
    | [], _ => exact ⟨[':'].intercalate left ++ [':'], [], by simp [List.intercalate], Or.inl rfl⟩
    | [word], hright =>
      refine ⟨[':'].intercalate left ++ [':'], word, by simp [List.intercalate], ?_⟩
      exact Or.inr (group_of_mem hright word List.mem_cons_self)
    | word :: next :: rest, hright =>
      obtain ⟨before, last, heq, hlast⟩ := exists_last_word ':' word next rest
      refine ⟨[':'].intercalate left ++ ':' :: ':' :: before, last, ?_, ?_⟩
      · rw [heq]
        simp
      · exact Or.inr (group_of_mem hright last (List.mem_cons_of_mem _ hlast))

/-- A last piece has no colon and no sign, and is short where it is a number. -/
theorem last_piece_plain {last : List Char} (h : last = [] ∨ IsGroup last ∨ IsIpv4 last) :
    ':' ∉ last ∧ '+' ∉ last ∧ '-' ∉ last ∧ ((∀ c ∈ last, c.isDigit) → last.length ≤ 4) := by
  rcases h with rfl | ⟨-, hlength, hhex⟩ | ⟨a, b, c, d, rfl⟩
  · simp
  · refine ⟨?_, ?_, ?_, fun _ => hlength⟩
    · exact fun hmem => (isHexDigit_plain (hhex _ hmem)).1 rfl
    · exact fun hmem => (isHexDigit_plain (hhex _ hmem)).2.1 rfl
    · exact fun hmem => (isHexDigit_plain (hhex _ hmem)).2.2 rfl
  · have hnot : ∀ x : Char, x ≠ '.' → x.isDigit = false → x ∉ ipv4Text a b c d := by
      intro x hdot hdigit hmem
      rcases mem_ipv4Text hmem with heq | htrue
      · exact hdot heq
      · rw [hdigit] at htrue
        contradiction
    refine ⟨hnot ':' (by decide) rfl, hnot '+' (by decide) rfl, hnot '-' (by decide) rfl, ?_⟩
    intro hdigits
    exact absurd (hdigits '.' (dot_mem_ipv4Text a b c d)) (by decide)

end SqlServerMcp.HostTexts
