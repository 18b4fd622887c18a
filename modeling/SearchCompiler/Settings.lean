import SearchCompiler.Json.Reader
import SearchCompiler.Json.Record
import SearchCompiler.Text.Digits
import SearchCompiler.Text.Words

/-!
Settings shared by all queries against one wiki: the longest query text that
is accepted, the names of the searched fields, the slop of phrase rescoring,
and the context in which profiles are chosen. They are read from a JSON
document, in which every field may be missing, or from named variables.
-/

namespace SearchCompiler

structure Settings where
  /-- In characters. -/
  maxLength : UInt64 := 300
  namespaceField : String := "namespace"
  allField : String := "all"
  titleField : String := "title"
  phraseSlop : UInt32 := 1
  profileContext : String := "default"
  profileParams : Table String := .empty
deriving DecidableEq

instance : Inhabited Settings := ⟨{}⟩

namespace Settings

/-- The fields in the order in which an array lists them. -/
def fieldNames : List String :=
  ["max_full_text_query_length", "namespace_field", "all_field", "title_field",
    "phrase_rescore_slop", "profile_context", "profile_context_params"]

def decode? (d : Document) : Option Settings := do
  let field ← d.record? fieldNames
  let unset : Settings := {}
  let maxLength ← Document.defaulted unset.maxLength Document.uint64?
    (field "max_full_text_query_length")
  let namespaceField ← Document.defaulted unset.namespaceField Document.string?
    (field "namespace_field")
  let allField ← Document.defaulted unset.allField Document.string? (field "all_field")
  let titleField ← Document.defaulted unset.titleField Document.string? (field "title_field")
  let phraseSlop ← Document.defaulted unset.phraseSlop Document.uint32?
    (field "phrase_rescore_slop")
  let profileContext ← Document.defaulted unset.profileContext Document.string?
    (field "profile_context")
  let profileParams ← Document.defaulted unset.profileParams
    (Document.table? Document.string?) (field "profile_context_params")
  return {
    maxLength, namespaceField, allField, titleField, phraseSlop, profileContext, profileParams }

def toJson (s : Settings) : Json :=
  .object [
    ("all_field", .string s.allField),
    ("max_full_text_query_length", .nat s.maxLength.toNat),
    ("namespace_field", .string s.namespaceField),
    ("phrase_rescore_slop", .nat s.phraseSlop.toNat),
    ("profile_context", .string s.profileContext),
    ("profile_context_params",
      .object (s.profileParams.entries.map fun (name, value) => (name, .string value))),
    ("title_field", .string s.titleField)]

def read? (text : String) : Option Settings := do
  decode? (← Document.read? text)

/-- The settings that variables give. A length or slop that is no integer of
its range keeps the default, and so does a blank context; a context that is
not blank is taken with the blanks around it. -/
def ofVariables (lookup : String → Option String) : Settings :=
  let unset : Settings := {}
  { unset with
    maxLength := (((lookup "SEARCH_MAX_QUERY_LENGTH").bind
      (unsignedBelow? UInt64.size)).map UInt64.ofNat).getD unset.maxLength
    phraseSlop := (((lookup "SEARCH_PHRASE_SLOP").bind
      (unsignedBelow? UInt32.size)).map UInt32.ofNat).getD unset.phraseSlop
    profileContext := ((lookup "SEARCH_PROFILE_CONTEXT").filter
      (!isBlankText ·)).getD unset.profileContext }

end Settings

end SearchCompiler
