import SqlServerMcp.HostTexts
import SqlServerMcp.SqlPool

/-!
The server that a url names, against the host and the port that the program takes
from it. The url is split at its last colon, which in an IPv6 literal without a
port is one of its own, and the brackets around a literal stay where they are.
-/
namespace SqlServerMcp.ServerAddress

open ConfigSchema Decimals FixedWidth HostTexts SqlPool Text

inductive Host where
  | dnsName (text : List Char) (valid : IsDnsName text)
  | ipv4 (text : List Char) (valid : IsIpv4 text)
  | ipv6 (text : List Char) (valid : IsIpv6 text)

namespace Host

def text : Host → List Char
  | .dnsName text _ | .ipv4 text _ | .ipv6 text _ => text

/-- The host as it stands before a port. -/
def bracketed : Host → List Char
  | .dnsName text _ | .ipv4 text _ => text
  | .ipv6 text _ => '[' :: (text ++ [']'])

def IsLiteral : Host → Prop
  | .dnsName _ _ | .ipv4 _ _ => False
  | .ipv6 _ _ => True

end Host

/-- A host on its own, or with a port. -/
inductive Written where
  | alone
  | withPort (port : U16)

namespace Written

def url (host : Host) : Written → String
  | .alone => String.ofList host.text
  | .withPort port => String.ofList host.bracketed ++ ":" ++ toString port.val

def port (sqlPort : U16) : Written → U16
  | .alone => sqlPort
  | .withPort port => port

/-- The forms that are taken apart as they are meant: a host on its own that does
not end in a colon and a decimal number, and a host with a port that is no IPv6
literal. -/
def Understood (host : Host) : Written → Prop
  | .alone => ¬ EndsInDecimal host.text
  | .withPort _ => ¬ host.IsLiteral

end Written

/-- The pair that a connection is made to, and the key of its pool. -/
structure Names (config : Config) (host : String) (port : U16) : Prop where
  pair : config.hostAndPort = (host, port)
  key : poolKey config = host ++ ":" ++ toString port.val

section Split

variable (config : Config)

theorem hostAndPort_of_notMem {l : List Char} (h : ':' ∉ l) :
    { config with url := String.ofList l }.hostAndPort = (String.ofList l, config.sqlPort) := by
  simp only [Config.hostAndPort, String.toList_ofList, splitLast_of_notMem ':' h]

theorem hostAndPort_of_ok {before rest : List Char} {port : U16} (hcolon : ':' ∉ rest)
    (h : parseInt 0 (2 ^ 16) rest = .ok port) :
    { config with url := String.ofList (before ++ ':' :: rest) }.hostAndPort =
      (String.ofList before, port) := by
  simp only [Config.hostAndPort, String.toList_ofList, splitLast_append ':' before hcolon, h]

theorem hostAndPort_of_error {before rest : List Char} {err : ParseIntError}
    (hcolon : ':' ∉ rest) (h : parseInt 0 (2 ^ 16) rest = .error err) :
    { config with url := String.ofList (before ++ ':' :: rest) }.hostAndPort =
      (String.ofList (before ++ ':' :: rest), config.sqlPort) := by
  simp only [Config.hostAndPort, String.toList_ofList, splitLast_append ':' before hcolon, h]

theorem toString_port (port : U16) : toString port.val = toString port.val.toNat := by
  conv => lhs; rw [← Int.toNat_of_nonneg port.lower]
  rfl

/-- The decimal text of a port is read as that port. -/
theorem parseInt_port (port : U16) : parseInt 0 (2 ^ 16) (toString port.val).toList = .ok port := by
  rw [toString_port]
  have hlower := port.lower
  have hupper := port.upper
  have hvalue : digitsValue (toString port.val.toNat).toList = port.val.toNat :=
    digitsValue_toString port.val.toNat
  have hne : (toString port.val.toNat).toList ≠ [] := by
    rw [toString_nat_toList]
    exact Nat.toDigits_ne_nil
  obtain ⟨n, hread, hval⟩ := parseInt_of_isDigit 0 (2 ^ 16) (le_refl 0) hne
    (fun c hc => isDigit_of_mem_toString hc) (by rw [hvalue]; omega)
  have hsame : n = port := by
    apply RangedInt.ext
    rw [hval, hvalue]
    omega
  rw [hread, hsame]

theorem colon_notMem_port (port : U16) : ':' ∉ (toString port.val).toList := by
  rw [toString_port]
  intro hmem
  exact absurd (isDigit_of_mem_toString hmem) (by decide)

theorem hostAndPort_withPort (l : List Char) (port : U16) :
    { config with url := String.ofList l ++ ":" ++ toString port.val }.hostAndPort =
      (String.ofList l, port) := by
  have hurl : String.ofList l ++ ":" ++ toString port.val =
      String.ofList (l ++ ':' :: (toString port.val).toList) := by
    apply String.toList_injective
    simp
  rw [hurl]
  exact hostAndPort_of_ok config (colon_notMem_port port) (parseInt_port port)

end Split

theorem not_endsInDecimal_of_notMem {l : List Char} (h : ':' ∉ l) : ¬ EndsInDecimal l := by
  intro h'
  obtain ⟨before, digits, rfl, -, -⟩ := h'
  exact h (List.mem_append_right _ List.mem_cons_self)

/-- An IPv6 literal ends in a number when its last piece is one. -/
theorem endsInDecimal_iff {before last : List Char} (h : ':' ∉ last) :
    EndsInDecimal (before ++ ':' :: last) ↔ last ≠ [] ∧ ∀ c ∈ last, c.isDigit := by
  constructor
  · intro h'
    obtain ⟨before', digits, heq, hne, hdigits⟩ := h'
    have hcolon : ':' ∉ digits := fun hmem => absurd (hdigits _ hmem) (by decide)
    have hsplit := splitLast_append ':' before h
    rw [heq, splitLast_append ':' before' hcolon] at hsplit
    rw [← (Prod.mk.inj (Option.some.inj hsplit)).2]
    exact ⟨hne, hdigits⟩
  · intro h'
    obtain ⟨hne, hdigits⟩ := h'
    exact ⟨before, last, rfl, hne, hdigits⟩

/-- An IPv6 literal on its own is kept whole exactly when it does not end in a
number: a last piece that is one always fits into a port. -/
theorem hostAndPort_ipv6_iff (config : Config) {l : List Char} (h : IsIpv6 l) :
    { config with url := String.ofList l }.hostAndPort = (String.ofList l, config.sqlPort) ↔
      ¬ EndsInDecimal l := by
  obtain ⟨before, last, rfl, hlast⟩ := exists_last_piece h
  obtain ⟨hcolon, hplus, hminus, hshort⟩ := last_piece_plain hlast
  rw [endsInDecimal_iff hcolon]
  cases hread : parseInt 0 (2 ^ 16) last with
  | error err =>
    refine iff_of_true (hostAndPort_of_error config hcolon hread) ?_
    intro h'
    obtain ⟨hne, hdigits⟩ := h'
    have hsmall : digitsValue last < 10 ^ 4 :=
      Nat.lt_of_lt_of_le (digitsValue_lt hdigits)
        (Nat.pow_le_pow_right (by norm_num) (hshort hdigits))
    have hfit : ((digitsValue last : ℕ) : ℤ) < 2 ^ 16 := by omega
    obtain ⟨n, hok, -⟩ := parseInt_of_isDigit 0 (2 ^ 16) (le_refl 0) hne hdigits hfit
    exact absurd (hread.symm.trans hok) nofun
  | ok port =>
    have hdigits := isDigit_of_parseInt (le_refl 0) (by norm_num) hplus hminus hread
    refine iff_of_false ?_ (not_not.mpr hdigits)
    rw [hostAndPort_of_ok config hcolon hread]
    intro hsame
    have hchars := congrArg String.toList (Prod.mk.inj hsame).1
    rw [String.toList_ofList, String.toList_ofList] at hchars
    exact absurd (List.self_eq_append_right.mp hchars) (List.cons_ne_nil _ _)

/-- The pair decides the key. -/
theorem names_iff_pair (config : Config) (host : String) (port : U16) :
    Names config host port ↔ config.hostAndPort = (host, port) := by
  constructor
  · exact Names.pair
  · intro h
    refine ⟨h, ?_⟩
    rw [poolKey, h]

theorem hostAndPort_alone_iff (config : Config) (host : Host) :
    { config with url := String.ofList host.text }.hostAndPort =
        (String.ofList host.text, config.sqlPort) ↔ ¬ EndsInDecimal host.text := by
  cases host with
  | dnsName text valid =>
    have hcolon := colon_notMem_dnsName valid
    exact iff_of_true (hostAndPort_of_notMem config hcolon) (not_endsInDecimal_of_notMem hcolon)
  | ipv4 text valid =>
    have hcolon : ':' ∉ text := (last_piece_plain (Or.inr (Or.inr valid))).1
    exact iff_of_true (hostAndPort_of_notMem config hcolon) (not_endsInDecimal_of_notMem hcolon)
  | ipv6 text valid => exact hostAndPort_ipv6_iff config valid

theorem bracketed_eq_text_iff (host : Host) : host.bracketed = host.text ↔ ¬ host.IsLiteral := by
  cases host with
  | dnsName text _ => exact iff_of_true rfl not_false
  | ipv4 text _ => exact iff_of_true rfl not_false
  | ipv6 text _ =>
    refine iff_of_false ?_ (not_not.mpr trivial)
    intro hsame
    have hlength := congrArg List.length hsame
    simp only [Host.bracketed, Host.text, List.length_cons, List.length_append] at hlength
    omega

/-- A url names its server exactly when it is of a form that is understood. Before
a port the host is always taken as it stands there, with the brackets around an
IPv6 literal. -/
theorem names_iff (config : Config) (host : Host) (written : Written) :
    (Names { config with url := written.url host } (String.ofList host.text)
        (written.port config.sqlPort) ↔ written.Understood host) ∧
      ∀ port : U16, { config with url := (Written.withPort port).url host }.hostAndPort =
        (String.ofList host.bracketed, port) := by
  refine ⟨?_, fun port => hostAndPort_withPort config host.bracketed port⟩
  rw [names_iff_pair]
  cases written with
  | alone => exact hostAndPort_alone_iff config host
  | withPort port =>
    show { config with url := String.ofList host.bracketed ++ ":" ++ toString port.val
      }.hostAndPort = (String.ofList host.text, port) ↔ ¬ host.IsLiteral
    rw [hostAndPort_withPort, ← bracketed_eq_text_iff, Prod.mk.injEq, and_iff_left rfl,
      String.ofList_inj]

/-- The loopback address of IPv6. -/
def loopback : Host :=
  .ipv6 [':', ':', '1'] (@IsIpv6.short [] [['1']] 1 nofun
    (.cons ⟨by decide, by decide, List.forall_mem_singleton.mpr rfl⟩ .nil) (by decide))

/-- The loopback address on its own is taken for a host of one colon at the port
1. -/
theorem not_names_loopback :
    ¬ ∀ (config : Config) (host : Host) (written : Written),
      Names { config with url := written.url host } (String.ofList host.text)
        (written.port config.sqlPort) := by
  intro h
  have hpair := (h (Config.ofRequired "" .sqlServer) loopback .alone).pair
  revert hpair
  decide

end SqlServerMcp.ServerAddress
