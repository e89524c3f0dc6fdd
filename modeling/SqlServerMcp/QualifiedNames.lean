import SqlServerMcp.QuotedWords
import SqlServerMcp.Statement

/-!
The names of objects as the server reads them. A name has parts in brackets with
dots in between, and the parts that the program quotes are those that are read,
whatever characters they are made of.
-/
namespace SqlServerMcp.QualifiedNames

open QuotedWords Statement

/-- The bracketed identifiers of T-SQL. -/
def brackets : Style Char where
  opening := '['
  closing := ']'
  separator := '.'
  distinct := by decide

/-- The parts of a name whose identifiers are all in brackets. -/
def readName (name : String) : Option (List String) :=
  (brackets.read name.toList).map fun parts => parts.map String.ofList

/-- The first identifier of a text, and what follows it. -/
def readIdent (text : List Char) : Option (String × List Char) :=
  (brackets.readWord text).map fun p => (String.ofList p.1, p.2)

def quotedName (parts : List String) : String := ".".intercalate (parts.map quoteIdent)

/-- The identifiers of a qualified name. -/
def nameParts (schema name : String) (executionDatabase : Option String) : List String :=
  executionDatabase.toList ++ [schema, name]

theorem toList_quoteIdent (ident : String) :
    (quoteIdent ident).toList = brackets.quote ident.toList := by
  simp only [quoteIdent, String.toList_append, String.toList_ofList]
  rfl

theorem toList_quotedName (parts : List String) :
    (quotedName parts).toList = brackets.join (parts.map String.toList) := by
  have hquote : String.toList ∘ quoteIdent = brackets.quote ∘ String.toList :=
    funext toList_quoteIdent
  rw [quotedName, String.toList_intercalate, List.map_map, hquote, Style.join, List.map_map]
  rfl

theorem map_ofList_toList (parts : List String) :
    (parts.map String.toList).map String.ofList = parts := by
  simp [Function.comp_def]

theorem qualifiedName_eq_quotedName (schema name : String) (executionDatabase : Option String) :
    qualifiedName schema name executionDatabase =
      quotedName (nameParts schema name executionDatabase) := by
  cases executionDatabase <;> rfl

theorem readName_quotedName_of_ne_nil {parts : List String} (hne : parts ≠ []) :
    readName (quotedName parts) = some parts := by
  have hchars : parts.map String.toList ≠ [] := by
    rw [ne_eq, List.map_eq_nil_iff]
    exact hne
  rw [readName, toList_quotedName, Style.read_join hchars, Option.map_some, map_ofList_toList]

/-- The name that a statement calls an object by is read as the schema and the
name, below the database where one is chosen. -/
theorem readName_qualifiedName (schema name : String) (executionDatabase : Option String) :
    readName (qualifiedName schema name executionDatabase) =
      some (nameParts schema name executionDatabase) := by
  rw [qualifiedName_eq_quotedName]
  apply readName_quotedName_of_ne_nil
  exact List.append_ne_nil_of_right_ne_nil _ (List.cons_ne_nil schema [name])

/-- No identifier gets out of its brackets. -/
theorem readIdent_quoteIdent (ident : String) {text : List Char} (h : text.head? ≠ some ']') :
    readIdent ((quoteIdent ident).toList ++ text) = some (ident, text) := by
  have hread : brackets.readWord (brackets.quote ident.toList ++ text) =
      some (ident.toList, text) := Style.readWord_quote ident.toList h
  rw [readIdent, toList_quoteIdent, hread, Option.map_some, String.ofList_toList]

/-- Quoted identifiers are read back whatever they contain, they are the only ones
with their text, and each of them ends at its own closing bracket. -/
theorem readName_quotedName (first : String) (rest : List String) :
    readName (quotedName (first :: rest)) = some (first :: rest) ∧
      (∀ parts, quotedName parts = quotedName (first :: rest) → parts = first :: rest) ∧
      ∀ ident ∈ first :: rest, ∀ text : List Char, text.head? ≠ some ']' →
        readIdent ((quoteIdent ident).toList ++ text) = some (ident, text) := by
  refine ⟨readName_quotedName_of_ne_nil (List.cons_ne_nil first rest), ?_, ?_⟩
  · intro parts hsame
    have hchars := congrArg String.toList hsame
    rw [toList_quotedName, toList_quotedName] at hchars
    have hparts := Style.join_injective (List.cons_ne_nil _ _) hchars
    exact List.map_injective_iff.mpr (fun _ _ h => String.toList_injective h) hparts
  · intro ident _ text htext
    exact readIdent_quoteIdent ident htext

end SqlServerMcp.QualifiedNames
