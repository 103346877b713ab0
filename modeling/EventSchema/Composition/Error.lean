import EventSchema.Inheritance
import EventSchema.Markup

/-!
# Composition errors

Why a catalog cannot be composed. The first failure ends a composition, and each one names the
documents at fault.
-/

namespace EventSchema

/-- Why a document cannot be loaded or resolved, or why the documents make no catalog. -/
inductive ComposeError where
  /-- the document is not one of the library -/
  | notEnumerated (path : DocumentPath)
  /-- the text of the document cannot be had -/
  | unreadable (path : DocumentPath) (reason : String)
  /-- the text of the document is no tree -/
  | malformed (path : DocumentPath) (cause : ParseError)
  /-- a reference names no document path -/
  | invalidReference (referrer : DocumentPath) (reference : String) (cause : PathError)
  /-- a reference names a document that is not in the library -/
  | unresolvedReference (referrer target : DocumentPath)
  /-- a document refers to itself over the documents between the two ends -/
  | referenceCycle (cycle : List DocumentPath)
  /-- a document has a base that cannot be inherited from -/
  | invalidExtends (path : DocumentPath) (fault : BaseFault)
  /-- a document declares no event -/
  | missingTitle (path : DocumentPath)
  /-- two documents declare one event -/
  | duplicateTitle (title : String) (first second : DocumentPath)

/-- The text of an error. -/
def ComposeError.message : ComposeError → String
  | notEnumerated path =>
    "document " ++ path.text ++ " is not among the enumerated schema documents"
  | unreadable path reason => "failed to read " ++ path.text ++ ": " ++ reason
  | malformed path cause => "failed to parse " ++ path.text ++ ": " ++ cause.message
  | invalidReference referrer reference cause =>
    "invalid reference '" ++ reference ++ "' in " ++ referrer.text ++ ": " ++ cause.message
  | unresolvedReference referrer target =>
    "unresolved reference: " ++ referrer.text ++ " references " ++ target.text ++
      ", which is not an enumerated schema document"
  | referenceCycle cycle =>
    "reference cycle detected: " ++ " -> ".intercalate (cycle.map DocumentPath.text)
  | invalidExtends path fault => "invalid extends in " ++ path.text ++ ": " ++ fault.message
  | missingTitle path => "schema document " ++ path.text ++ " has no string 'title'"
  | duplicateTitle title first second =>
    "duplicate event title '" ++ title ++ "' declared by " ++ first.text ++ " and " ++ second.text

end EventSchema
