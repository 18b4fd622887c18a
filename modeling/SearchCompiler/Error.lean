import SearchCompiler.Cleanup
import SearchCompiler.Json.Printer

/-!
The reasons for which a query is refused, and their wording.
-/

namespace SearchCompiler

inductive QueryError where
  /-- No classifier owns the label. -/
  | unknownClass (label : String)
  /-- The text has more characters than are accepted. -/
  | tooLong (length limit : Nat)
  /-- The label is owned by a classifier already. -/
  | classTaken (label : String)
  /-- Cleanups are reported for a text that did not change. -/
  | unchangedText (cleanups : List Cleanup)
  /-- An item of a list of namespaces is no 32-bit integer. -/
  | notNamespace (value : Json)
  /-- Namespaces are given neither as a list nor by the marker for all. -/
  | notNamespaces (value : Json)

namespace QueryError

def message : QueryError → String
  | .unknownClass label => "No classifier registered for class '" ++ label ++ "'"
  | .tooLong length limit =>
      "Query text is " ++ toString length ++ " characters long, the maximum is "
        ++ toString limit
  | .classTaken label =>
      "Malformed parameter: class '" ++ label ++ "' is already owned by another classifier"
  | .unchangedText cleanups =>
      "Malformed parameter: query cleanups \x7b" ++ ", ".intercalate (cleanups.map Cleanup.title)
        ++ "\x7d reported but the query text is unchanged"
  | .notNamespace value =>
      "Malformed parameter: requiredNamespaces: " ++ value.text ++ " is not a namespace id"
  | .notNamespaces value =>
      "Malformed parameter: requiredNamespaces must be \"all\" or a list of ids, got "
        ++ value.text

end QueryError

end SearchCompiler
