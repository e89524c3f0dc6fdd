import SqlServerMcp.HostTexts

/-!
Reading the texts of addresses. An address is a literal of one of the two versions,
and a socket address has a port after it; the second version stands in brackets
there, with a scope if it needs one. A host with a port behind it is read exactly
when the host is such a literal, so a name is not.
-/
namespace SqlServerMcp.AddressTexts

open Decimals FixedWidth HostTexts Text

/-- A number in decimal digits that fits. -/
def readNumber (hi : ℤ) (l : List Char) : Option (RangedInt 0 hi) :=
  if l.isEmpty || !l.all Char.isDigit then none else RangedInt.tryFrom 0 hi (digitsValue l)

def isOctet (l : List Char) : Bool :=
  decide ((toString (digitsValue l)).toList = l) && decide (digitsValue l < 256)

def isIpv4 (l : List Char) : Bool :=
  (splitAll '.' l).length == 4 && (splitAll '.' l).all isOctet

def isGroup (l : List Char) : Bool := !l.isEmpty && decide (l.length ≤ 4) && l.all isHexDigit

/-- The number of 16-bit pieces that groups stand for. -/
def countPieces : List (List Char) → Option ℕ
  | [] => some 0
  | [l] => if isIpv4 l then some 2 else if isGroup l then some 1 else none
  | l :: rest => if isGroup l then (countPieces rest).map (· + 1) else none

/-- The words between colons; there is none in an empty text. -/
def groupsOf (l : List Char) : List (List Char) := if l.isEmpty then [] else splitAll ':' l

/-- A text around its first two colons in a row. -/
def splitShort : List Char → Option (List Char × List Char)
  | [] => none
  | [_] => none
  | c :: d :: rest =>
    if c = ':' ∧ d = ':' then some ([], rest)
    else (splitShort (d :: rest)).map fun p => (c :: p.1, p.2)

def isIpv6 (l : List Char) : Bool :=
  match splitShort l with
  | none => countPieces (splitAll ':' l) == some 8
  | some (left, right) =>
    (groupsOf left).all isGroup && match countPieces (groupsOf right) with
      | some n => decide ((groupsOf left).length + n ≤ 7)
      | none => false

section Words

variable {sep : Char} {words : List (List Char)}

theorem exists_splitAll (sep : Char) (l : List Char) :
    ∃ word others, splitAll sep l = word :: others := by
  cases l with
  | nil => exact ⟨[], [], rfl⟩
  | cons c rest =>
    rw [splitAll]
    split
    · exact ⟨[], splitAll sep rest, rfl⟩
    · split
      · exact ⟨[c], [], rfl⟩
      · rename_i word others _
        exact ⟨c :: word, others, rfl⟩

theorem intercalate_splitAll (sep : Char) (l : List Char) :
    [sep].intercalate (splitAll sep l) = l := by
  induction l with
  | nil => rfl
  | cons c rest ih =>
    obtain ⟨word, others, hwords⟩ := exists_splitAll sep rest
    rw [hwords] at ih
    rw [splitAll, hwords]
    by_cases hc : c = sep
    · rw [if_pos hc, List.intercalate_cons_cons, ih, hc]
      rfl
    · rw [if_neg hc, ← ih]
      cases others with
      | nil => rw [List.intercalate_singleton, List.intercalate_singleton]
      | cons next others =>
        rw [List.intercalate_cons_cons, List.intercalate_cons_cons, List.cons_append,
          List.cons_append]

theorem splitAll_intercalate (hne : words ≠ []) (h : ∀ word ∈ words, sep ∉ word) :
    splitAll sep ([sep].intercalate words) = words := by
  cases words with
  | nil => contradiction
  | cons word others =>
    induction others generalizing word with
    | nil =>
      rw [List.intercalate_singleton]
      exact splitAll_of_notMem sep (h word List.mem_cons_self)
    | cons next others ih =>
      rw [List.forall_mem_cons] at h
      rw [List.intercalate_cons_cons, List.append_assoc, List.singleton_append,
        splitAll_append sep _ h.1, ih next (List.cons_ne_nil _ _) h.2]

theorem groupsOf_intercalate (h : ∀ word ∈ words, word ≠ [] ∧ ':' ∉ word) :
    groupsOf ([':'].intercalate words) = words := by
  cases words with
  | nil => rfl
  | cons word others =>
    have hjoined := splitAll_intercalate (List.cons_ne_nil word others) fun w hw => (h w hw).2
    rw [groupsOf, if_neg, hjoined]
    intro hempty
    rw [List.isEmpty_iff.mp hempty] at hjoined
    exact (h word List.mem_cons_self).1 (List.cons.inj hjoined).1.symm

theorem intercalate_groupsOf (l : List Char) : [':'].intercalate (groupsOf l) = l := by
  rw [groupsOf]
  split
  · rename_i hempty
    rw [List.isEmpty_iff.mp hempty]
    rfl
  · exact intercalate_splitAll ':' l

theorem splitShort_eq_some {l left right : List Char} (h : splitShort l = some (left, right)) :
    l = left ++ ':' :: ':' :: right := by
  induction l using splitShort.induct generalizing left with
  | case1 => cases h
  | case2 c => cases h
  | case3 c d rest hcolons =>
    rw [splitShort, if_pos hcolons] at h
    obtain ⟨rfl, rfl⟩ := Prod.mk.inj (Option.some.inj h)
    rw [hcolons.1, hcolons.2]
    rfl
  | case4 c d rest hcolons ih =>
    rw [splitShort, if_neg hcolons] at h
    obtain ⟨p, hp, hpair⟩ := Option.map_eq_some_iff.mp h
    obtain ⟨rfl, rfl⟩ := Prod.mk.inj hpair
    rw [ih hp, List.cons_append]

theorem splitShort_cons {c : Char} {l : List Char} (h : ¬(c = ':' ∧ l.head? = some ':')) :
    splitShort (c :: l) = (splitShort l).map fun p => (c :: p.1, p.2) := by
  cases l with
  | nil => rfl
  | cons d rest =>
    rw [splitShort, if_neg]
    intro hcolons
    exact h ⟨hcolons.1, congrArg some hcolons.2⟩

theorem splitShort_word {word : List Char} (h : ':' ∉ word) (l : List Char) :
    splitShort (word ++ l) = (splitShort l).map fun p => (word ++ p.1, p.2) := by
  induction word with
  | nil => exact Option.map_id'.symm
  | cons c word ih =>
    rw [List.mem_cons, not_or] at h
    rw [List.cons_append, splitShort_cons fun hc => h.1 hc.1.symm, ih h.2, Option.map_map]
    rfl

/-- Words between colons have no two colons in a row. -/
theorem splitShort_intercalate (h : ∀ word ∈ words, word ≠ [] ∧ ':' ∉ word) (l : List Char) :
    splitShort ([':'].intercalate words ++ l) =
      (splitShort l).map fun p => ([':'].intercalate words ++ p.1, p.2) := by
  cases words with
  | nil => exact Option.map_id'.symm
  | cons word others =>
    induction others generalizing word with
    | nil =>
      rw [List.intercalate_singleton]
      exact splitShort_word (h word List.mem_cons_self).2 l
    | cons next others ih =>
      have hrest : ∀ w ∈ next :: others, w ≠ [] ∧ ':' ∉ w := fun w hw =>
        h w (List.mem_cons_of_mem _ hw)
      have hhead : ([':'].intercalate (next :: others) ++ l).head? ≠ some ':' := by
        obtain ⟨hne, hcolon⟩ := hrest next List.mem_cons_self
        cases next with
        | nil => contradiction
        | cons c tail =>
          have hfirst : ([':'].intercalate ((c :: tail) :: others) ++ l).head? = some c := by
            cases others with
            | nil => rw [List.intercalate_singleton]; rfl
            | cons => rw [List.intercalate_cons_cons]; rfl
          rw [hfirst]
          intro hc
          exact hcolon (Option.some.inj hc ▸ List.mem_cons_self)
      rw [List.intercalate_cons_cons, List.append_assoc, List.append_assoc,
        splitShort_word (h word List.mem_cons_self).2, List.singleton_append,
        splitShort_cons fun hc => hhead hc.2, ih next hrest, Option.map_map, Option.map_map]
      refine congrFun (congrArg Option.map (funext fun p => ?_)) _
      simp

end Words

section Literals

theorem isOctet_iff (l : List Char) :
    isOctet l = true ↔ ∃ octet : UInt8, l = (toString octet.toNat).toList := by
  rw [isOctet, Bool.and_eq_true, decide_eq_true_eq, decide_eq_true_eq]
  constructor
  · intro h
    refine ⟨UInt8.ofNat (digitsValue l), ?_⟩
    rw [UInt8.toNat_ofNat_of_lt' h.2]
    exact h.1.symm
  · intro h
    obtain ⟨octet, rfl⟩ := h
    rw [digitsValue_toString]
    exact ⟨rfl, octet.toNat_lt⟩

theorem isIpv4_iff (l : List Char) : isIpv4 l = true ↔ IsIpv4 l := by
  rw [isIpv4, Bool.and_eq_true, beq_iff_eq, List.all_eq_true]
  constructor
  · intro h
    obtain ⟨hlength, hoctets⟩ := h
    have hjoined := intercalate_splitAll '.' l
    match hsplit : splitAll '.' l, hlength with
    | [a, b, c, d], _ =>
      rw [hsplit] at hoctets hjoined
      simp only [List.forall_mem_cons, isOctet_iff] at hoctets
      obtain ⟨⟨a, rfl⟩, ⟨b, rfl⟩, ⟨c, rfl⟩, ⟨d, rfl⟩, -⟩ := hoctets
      exact ⟨a, b, c, d, hjoined.symm⟩
  · intro h
    obtain ⟨a, b, c, d, rfl⟩ := h
    have hsplit : splitAll '.' (ipv4Text a b c d) =
        [a, b, c, d].map fun octet => (toString octet.toNat).toList := by
      refine splitAll_intercalate (by simp) fun word hword => ?_
      obtain ⟨octet, -, rfl⟩ := List.mem_map.mp hword
      exact fun hdot => absurd (isDigit_of_mem_toString hdot) (by decide)
    rw [hsplit]
    refine ⟨rfl, fun word hword => ?_⟩
    obtain ⟨octet, -, rfl⟩ := List.mem_map.mp hword
    exact (isOctet_iff _).mpr ⟨octet, rfl⟩

theorem isGroup_iff (l : List Char) : isGroup l = true ↔ IsGroup l := by
  simp [isGroup, IsGroup, and_assoc]

theorem not_isIpv4_of_isGroup {l : List Char} (h : IsGroup l) : ¬ IsIpv4 l := by
  intro h'
  obtain ⟨a, b, c, d, rfl⟩ := h'
  exact absurd (h.2.2 '.' (dot_mem_ipv4Text a b c d)) (by decide)

theorem plain_of_groups {groups : List (List Char)} {n : ℕ} (h : Groups groups n) :
    ∀ word ∈ groups, word ≠ [] ∧ ':' ∉ word := by
  intro word hword
  have hpiece := group_of_mem h word hword
  refine ⟨?_, (last_piece_plain (Or.inr hpiece)).1⟩
  rcases hpiece with hgroup | ⟨a, b, c, d, rfl⟩
  · exact hgroup.1
  · exact List.ne_nil_of_mem (dot_mem_ipv4Text a b c d)

theorem countPieces_cons_cons (l next : List Char) (rest : List (List Char)) :
    countPieces (l :: next :: rest) =
      if isGroup l then (countPieces (next :: rest)).map (· + 1) else none := by
  rw [countPieces]
  nofun

theorem countPieces_eq_some_iff (groups : List (List Char)) (n : ℕ) :
    countPieces groups = some n ↔ Groups groups n := by
  constructor
  · intro h
    induction groups generalizing n with
    | nil =>
      obtain rfl := Option.some.inj h
      exact .nil
    | cons l rest ih =>
      cases rest with
      | nil =>
        rw [countPieces] at h
        split at h
        · rename_i hl
          obtain rfl := Option.some.inj h
          exact .ipv4 ((isIpv4_iff l).mp hl)
        · split at h
          · rename_i hl
            obtain rfl := Option.some.inj h
            exact .cons ((isGroup_iff l).mp hl) .nil
          · cases h
      | cons next rest =>
        rw [countPieces_cons_cons] at h
        split at h
        · rename_i hl
          obtain ⟨m, hm, rfl⟩ := Option.map_eq_some_iff.mp h
          exact .cons ((isGroup_iff l).mp hl) (ih m hm)
        · cases h
  · intro h
    induction h with
    | nil => rfl
    | @ipv4 l hl => rw [countPieces, if_pos ((isIpv4_iff l).mpr hl)]
    | @cons l rest n hl hrest ih =>
      have hgroup := (isGroup_iff l).mpr hl
      cases hrest with
      | nil =>
        rw [countPieces, if_neg (mt (isIpv4_iff l).mp (not_isIpv4_of_isGroup hl)), if_pos hgroup]
      | ipv4 | cons =>
        rw [countPieces_cons_cons, if_pos hgroup, ih]
        rfl

theorem isIpv6_iff (l : List Char) : isIpv6 l = true ↔ IsIpv6 l := by
  constructor
  · intro h
    rw [isIpv6] at h
    split at h
    · rw [beq_iff_eq, countPieces_eq_some_iff] at h
      exact intercalate_splitAll ':' l ▸ .full h
    · rename_i left right hsplit
      rw [Bool.and_eq_true, List.all_eq_true] at h
      obtain ⟨hleft, hright⟩ := h
      split at hright
      · rename_i n hn
        have hshort := IsIpv6.short (fun word hword => (isGroup_iff word).mp (hleft word hword))
          ((countPieces_eq_some_iff _ _).mp hn) (of_decide_eq_true hright)
        rwa [intercalate_groupsOf, intercalate_groupsOf, ← splitShort_eq_some hsplit] at hshort
      · contradiction
  · intro h
    cases h with
    | @full groups hgroups =>
      have hplain := plain_of_groups hgroups
      have hsplit := splitShort_intercalate hplain []
      rw [List.append_nil] at hsplit
      have hne : groups ≠ [] := by
        rintro rfl
        cases hgroups
      rw [isIpv6, hsplit]
      simp only [splitShort, Option.map_none]
      rw [splitAll_intercalate hne fun word hword => (hplain word hword).2, beq_iff_eq]
      exact (countPieces_eq_some_iff groups 8).mpr hgroups
    | @short left right n hleft hright hlength =>
      have hplain : ∀ word ∈ left, word ≠ [] ∧ ':' ∉ word := fun word hword =>
        ⟨(hleft word hword).1, (last_piece_plain (Or.inr (Or.inl (hleft word hword)))).1⟩
      have hsplit := splitShort_intercalate hplain (':' :: ':' :: [':'].intercalate right)
      rw [isIpv6, hsplit, splitShort, if_pos ⟨rfl, rfl⟩]
      simp only [Option.map_some, List.append_nil]
      rw [groupsOf_intercalate hplain, groupsOf_intercalate (plain_of_groups hright),
        (countPieces_eq_some_iff right n).mpr hright, Bool.and_eq_true, List.all_eq_true]
      exact ⟨fun word hword => (isGroup_iff word).mpr (hleft word hword), decide_eq_true hlength⟩

theorem notMem_ipv6 {l : List Char} (h : IsIpv6 l) {c : Char} (hcolon : c ≠ ':')
    (hdot : c ≠ '.') (hhex : isHexDigit c = false) : c ∉ l := by
  have hword : ∀ word, IsGroup word ∨ IsIpv4 word → c ∉ word := by
    rintro word (hgroup | ⟨p, q, r, t, rfl⟩) hc
    · rw [hgroup.2.2 c hc] at hhex
      contradiction
    · rcases mem_ipv4Text hc with heq | hdigit
      · exact hdot heq
      · rw [isHexDigit, hdigit] at hhex
        contradiction
  have hwords : ∀ words : List (List Char), (∀ word ∈ words, IsGroup word ∨ IsIpv4 word) →
      c ∉ [':'].intercalate words := by
    intro words h hc
    rcases mem_intercalate hc with heq | ⟨word, hmem, hc⟩
    · exact hcolon heq
    · exact hword word (h word hmem) hc
  cases h with
  | full hgroups => exact hwords _ (group_of_mem hgroups)
  | short hleft hright =>
    rw [List.mem_append, List.mem_cons, List.mem_cons]
    rintro (hc | hc | hc | hc)
    · exact hwords _ (fun word hmem => Or.inl (hleft word hmem)) hc
    · exact hcolon hc
    · exact hcolon hc
    · exact hwords _ (group_of_mem hright) hc

end Literals

/-- A literal, as it is written; one of the second version with the number of its
scope. -/
inductive IpAddr where
  | v4 (text : List Char) (valid : IsIpv4 text)
  | v6 (text : List Char) (valid : IsIpv6 text) (scopeId : U32)

structure SocketAddr where
  ip : IpAddr
  port : U16

theorem scope_lower : (0 : ℤ) ≤ 0 := le_rfl

theorem scope_upper : (0 : ℤ) < 2 ^ 32 := by norm_num

def noScope : U32 := ⟨0, scope_lower, scope_upper⟩

def readSocketAddrV4 (text : List Char) : Option SocketAddr :=
  match splitOnce ':' text with
  | some (ip, port) =>
    if h : isIpv4 ip then
      (readNumber (2 ^ 16) port).map fun port => ⟨.v4 ip ((isIpv4_iff ip).mp h), port⟩
    else none
  | none => none

/-- What stands in the brackets. -/
def readScoped (text : List Char) : Option IpAddr :=
  match splitOnce '%' text with
  | none => if h : isIpv6 text then some (.v6 text ((isIpv6_iff text).mp h) noScope) else none
  | some (ip, scope) =>
    if h : isIpv6 ip then
      (readNumber (2 ^ 32) scope).map fun scope => .v6 ip ((isIpv6_iff ip).mp h) scope
    else none

def readSocketAddrV6 : List Char → Option SocketAddr
  | '[' :: rest =>
    match splitOnce ']' rest with
    | some (inner, ':' :: port) =>
      (readScoped inner).bind fun ip => (readNumber (2 ^ 16) port).map fun port => ⟨ip, port⟩
    | _ => none
  | _ => none

def parseSocketAddr (text : List Char) : Option SocketAddr :=
  (readSocketAddrV4 text).or (readSocketAddrV6 text)

/-- The hosts that are written as literals before a port. -/
inductive Denotes : List Char → IpAddr → Prop
  | v4 {text : List Char} (valid : IsIpv4 text) : Denotes text (.v4 text valid)
  | v6 {text : List Char} (valid : IsIpv6 text) :
      Denotes ('[' :: (text ++ [']'])) (.v6 text valid noScope)
  | zoned {text digits : List Char} {scope : U32} (valid : IsIpv6 text)
      (hscope : readNumber (2 ^ 32) digits = some scope) :
      Denotes ('[' :: (text ++ '%' :: (digits ++ [']']))) (.v6 text valid scope)

section Sockets

theorem readNumber_eq_some_iff {hi : ℤ} (l : List Char) (n : RangedInt 0 hi) :
    readNumber hi l = some n ↔
      l ≠ [] ∧ (∀ c ∈ l, c.isDigit = true) ∧ n.val = digitsValue l := by
  rw [readNumber]
  split
  · rename_i h
    refine iff_of_false nofun ?_
    rw [Bool.or_eq_true, List.isEmpty_iff, Bool.not_eq_true', ← Bool.not_eq_true,
      List.all_eq_true] at h
    intro h'
    exact h.elim h'.1 fun hdigits => hdigits h'.2.1
  · rename_i h
    rw [Bool.or_eq_true, List.isEmpty_iff, Bool.not_eq_true', ← Bool.not_eq_true,
      List.all_eq_true, not_or, not_not] at h
    rw [RangedInt.tryFrom_eq_some_iff]
    exact ⟨fun heq => ⟨h.1, h.2, heq⟩, fun h' => h'.2.2⟩

theorem notMem_of_readNumber {hi : ℤ} {l : List Char} {n : RangedInt 0 hi}
    (h : readNumber hi l = some n) {c : Char} (hc : c.isDigit = false) : c ∉ l := by
  intro hmem
  have hdigit := ((readNumber_eq_some_iff l n).mp h).2.1 c hmem
  rw [hc] at hdigit
  contradiction

theorem readNumber_eq_none {hi : ℤ} {l : List Char} {c : Char} (hmem : c ∈ l)
    (hc : c.isDigit = false) : readNumber hi l = none := by
  cases h : readNumber hi l with
  | none => rfl
  | some n => exact absurd hmem (notMem_of_readNumber h hc)

theorem readNumber_toString {hi : ℤ} (n : RangedInt 0 hi) :
    readNumber hi (toString n.val).toList = some n := by
  obtain ⟨value, lower, upper⟩ := n
  lift value to ℕ using lower
  have htext : (toString (value : ℤ)).toList = (toString value).toList := rfl
  rw [readNumber_eq_some_iff, htext]
  refine ⟨?_, fun c hc => isDigit_of_mem_toString hc, ?_⟩
  · rw [toString_nat_toList]
    exact Nat.toDigits_ne_nil
  · rw [digitsValue_toString]

variable {port : U16} {digits : List Char}

theorem readSocketAddrV4_iff (hport : readNumber (2 ^ 16) digits = some port)
    (host : List Char) (addr : SocketAddr) :
    readSocketAddrV4 (host ++ ':' :: digits) = some addr ↔
      ∃ valid : IsIpv4 host, addr = ⟨.v4 host valid, port⟩ := by
  rw [readSocketAddrV4]
  by_cases hcolon : ':' ∈ host
  · have hnot : ¬ IsIpv4 host := fun h => (last_piece_plain (Or.inr (Or.inr h))).1 hcolon
    refine iff_of_false ?_ fun h => hnot h.1
    obtain ⟨before, after, rfl, hbefore⟩ := List.eq_append_cons_of_mem hcolon
    rw [List.append_assoc, List.cons_append, splitOnce_append ':' before _ hbefore]
    dsimp only
    rw [readNumber_eq_none (List.mem_append_right after List.mem_cons_self) rfl]
    split
    · rw [Option.map_none]
      nofun
    · nofun
  · rw [splitOnce_append ':' host digits hcolon]
    dsimp only
    rw [hport]
    by_cases hvalid : isIpv4 host = true
    · rw [dif_pos hvalid, Option.map_some, Option.some.injEq]
      exact ⟨fun h => ⟨(isIpv4_iff host).mp hvalid, h.symm⟩, fun h => h.2.symm⟩
    · rw [dif_neg hvalid]
      exact iff_of_false nofun fun h => hvalid ((isIpv4_iff host).mpr h.1)

/-- What is in brackets has no bracket in it. -/
theorem bracket_notMem_of_readScoped {inner : List Char} {ip : IpAddr}
    (h : readScoped inner = some ip) : ']' ∉ inner := by
  rw [readScoped] at h
  split at h
  · split at h
    · rename_i hvalid
      exact fun hmem => notMem_ipv6 ((isIpv6_iff inner).mp hvalid) (by decide) (by decide) rfl hmem
    · cases h
  · rename_i text scope hsplit
    split at h
    · rename_i hvalid
      obtain ⟨n, hn, -⟩ := Option.map_eq_some_iff.mp h
      rw [splitOnce_eq_some hsplit, List.mem_append, List.mem_cons]
      rintro (htext | hpercent | hscope)
      · exact notMem_ipv6 ((isIpv6_iff text).mp hvalid) (by decide) (by decide) rfl htext
      · exact absurd hpercent (by decide)
      · exact notMem_of_readNumber hn rfl hscope
    · cases h

theorem readScoped_iff (inner : List Char) (ip : IpAddr) :
    readScoped inner = some ip ↔ Denotes ('[' :: (inner ++ [']'])) ip := by
  constructor
  · intro h
    rw [readScoped] at h
    split at h
    · split at h
      · rename_i hvalid
        obtain rfl := Option.some.inj h
        exact .v6 ((isIpv6_iff inner).mp hvalid)
      · cases h
    · rename_i text scope hsplit
      split at h
      · rename_i hvalid
        obtain ⟨n, hn, rfl⟩ := Option.map_eq_some_iff.mp h
        rw [splitOnce_eq_some hsplit, List.append_assoc, List.cons_append]
        exact .zoned ((isIpv6_iff text).mp hvalid) hn
      · cases h
  · intro h
    generalize hhost : '[' :: (inner ++ [']']) = host at h
    cases h with
    | v4 valid =>
      obtain ⟨a, b, c, d, rfl⟩ := valid
      have hmem : '[' ∈ ipv4Text a b c d := hhost ▸ List.mem_cons_self
      rcases mem_ipv4Text hmem with hdot | hdigit
      · exact absurd hdot (by decide)
      · exact absurd hdigit (by decide)
    | @v6 text valid =>
      obtain rfl := List.append_cancel_right (List.cons.inj hhost).2
      have hpercent : '%' ∉ inner := notMem_ipv6 valid (by decide) (by decide) rfl
      rw [readScoped, splitOnce_of_notMem '%' hpercent]
      exact dif_pos ((isIpv6_iff inner).mpr valid)
    | @zoned text digits scope valid hscope =>
      have hinner := (List.cons.inj hhost).2
      rw [← List.cons_append, ← List.append_assoc] at hinner
      obtain rfl := List.append_cancel_right hinner
      have hpercent : '%' ∉ text := notMem_ipv6 valid (by decide) (by decide) rfl
      rw [readScoped, splitOnce_append '%' text digits hpercent]
      dsimp only
      rw [dif_pos ((isIpv6_iff text).mpr valid), hscope]
      rfl

theorem readSocketAddrV6_iff (hport : readNumber (2 ^ 16) digits = some port)
    (host : List Char) (addr : SocketAddr) :
    readSocketAddrV6 (host ++ ':' :: digits) = some addr ↔
      ∃ inner ip, host = '[' :: (inner ++ [']']) ∧ readScoped inner = some ip ∧
        addr = ⟨ip, port⟩ := by
  constructor
  · intro h
    rw [readSocketAddrV6.eq_def] at h
    split at h
    · rename_i rest heq
      split at h
      · rename_i inner text hsplit
        obtain ⟨ip, hip, hrest⟩ := Option.bind_eq_some_iff.mp h
        obtain ⟨n, hn, rfl⟩ := Option.map_eq_some_iff.mp hrest
        have hwhole : host ++ ':' :: digits = '[' :: (inner ++ [']']) ++ ':' :: text := by
          rw [heq, splitOnce_eq_some hsplit]
          simp
        -- Both ports follow the last colon.
        have hlast := splitLast_append ':' host (notMem_of_readNumber hport rfl)
        rw [hwhole, splitLast_append ':' _ (notMem_of_readNumber hn rfl)] at hlast
        obtain ⟨rfl, rfl⟩ := Prod.mk.inj (Option.some.inj hlast)
        rw [hport] at hn
        rw [Option.some.inj hn]
        exact ⟨inner, ip, rfl, hip, rfl⟩
      · cases h
    · cases h
  · intro h
    obtain ⟨inner, ip, rfl, hip, rfl⟩ := h
    rw [List.cons_append, List.append_assoc, List.singleton_append, readSocketAddrV6,
      splitOnce_append ']' inner _ (bracket_notMem_of_readScoped hip)]
    simp only [hip, hport, Option.bind_some, Option.map_some]

/-- A host with a port behind it is an address exactly when the host is a literal. -/
theorem parseSocketAddr_iff (host : List Char) (port : U16) (addr : SocketAddr) :
    parseSocketAddr (host ++ ':' :: (toString port.val).toList) = some addr ↔
      Denotes host addr.ip ∧ addr.port = port := by
  have hport := readNumber_toString port
  rw [parseSocketAddr, Option.or_eq_some_iff, readSocketAddrV4_iff hport,
    readSocketAddrV6_iff hport]
  constructor
  · rintro (⟨valid, rfl⟩ | ⟨-, inner, ip, rfl, hip, rfl⟩)
    · exact ⟨.v4 valid, rfl⟩
    · exact ⟨(readScoped_iff inner ip).mp hip, rfl⟩
  · rintro ⟨hhost, rfl⟩
    obtain ⟨ip, port⟩ := addr
    have hbracketed : ∀ inner, host = '[' :: (inner ++ [']']) →
        readSocketAddrV4 (host ++ ':' :: (toString port.val).toList) = none := by
      rintro inner rfl
      refine Option.eq_none_iff_forall_ne_some.mpr fun addr h => ?_
      obtain ⟨⟨a, b, c, d, hvalid⟩, -⟩ := (readSocketAddrV4_iff hport _ addr).mp h
      rcases mem_ipv4Text (hvalid ▸ List.mem_cons_self) with hdot | hdigit
      · exact absurd hdot (by decide)
      · exact absurd hdigit (by decide)
    cases hhost with
    | v4 valid => exact Or.inl ⟨valid, rfl⟩
    | @v6 text valid =>
      exact Or.inr ⟨hbracketed text rfl, text, _, rfl, (readScoped_iff text _).mpr (.v6 valid), rfl⟩
    | @zoned text digits scope valid hscope =>
      have hinner : '[' :: (text ++ '%' :: (digits ++ [']'])) =
          '[' :: ((text ++ '%' :: digits) ++ [']']) := by simp
      refine Or.inr ⟨hbracketed _ hinner, _, _, hinner, (readScoped_iff _ _).mpr ?_, rfl⟩
      exact hinner ▸ .zoned valid hscope

example : parseSocketAddr "localhost:3000".toList = none := by decide

end Sockets

end SqlServerMcp.AddressTexts
