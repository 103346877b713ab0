import EventSchema.Composition.Catalog
import EventSchema.TypeScript.Lowering
import EventSchema.TypeScript.Type.Printer

/-!
# Generated modules

The TypeScript module of a catalog: a header, and for each event in title order a block of three
declarations, with an empty line in front of each.

* `ModuleOptions` — the banner, and whether an event carries its title;
* `nameEvents` — the names of all events, unless a title has none or two titles share one;
* `header`, `block` — the parts of a module;
* `Catalog.module` — the whole module.
-/

namespace EventSchema.TypeScript

/-- What can be chosen for a module. -/
structure ModuleOptions where
  /-- the text of the comment at the top -/
  banner : String
  /-- whether each event carries its title -/
  includeEventName : Bool
  deriving DecidableEq

namespace ModuleOptions

/-- The banner unless another one is chosen. -/
def defaultBanner : String :=
  "This file is generated by evgen from event schemas. Do not edit it by hand."

/-- The options unless others are chosen. -/
def default : ModuleOptions := ⟨defaultBanner, true⟩

end ModuleOptions

/-- Why a catalog has no module. -/
inductive NameError where
  /-- a title has no words -/
  | invalidIdentifier (title : String)
  /-- two titles give one name -/
  | duplicateIdentifier (identifier first second : String)
  deriving DecidableEq

/-- The text of an error. -/
def NameError.message : NameError → String
  | invalidIdentifier title => "event title '" ++ title ++ "' yields no identifier characters"
  | duplicateIdentifier identifier first second =>
    "event titles '" ++ first ++ "' and '" ++ second ++ "' both generate identifier '" ++
      identifier ++ "'"

/-- The names that were given, each with its title. Functions and types are apart. -/
structure GivenNames where
  factories : List (String × String)
  types : List (String × String)

/-- Gives the names of one more title. -/
def GivenNames.give (given : GivenNames) (title : String) :
    Except NameError (EventNames × GivenNames) :=
  match EventNames.ofTitle? title with
  | none => .error (.invalidIdentifier title)
  | some names =>
    match given.factories.lookup names.factory, given.types.lookup names.propertiesType with
    | some first, _ => .error (.duplicateIdentifier names.factory first title)
    | none, some first => .error (.duplicateIdentifier names.propertiesType first title)
    | none, none =>
      .ok (names,
        ⟨(names.factory, title) :: given.factories, (names.propertiesType, title) :: given.types⟩)

/-- The events with their names, after some names were given. -/
def nameEventsAfter (given : GivenNames) : List Event → Except NameError (List (Event × EventNames))
  | [] => .ok []
  | event :: events => do
    let (names, given) ← given.give event.title
    return (event, names) :: (← nameEventsAfter given events)

/-- The events with their names. -/
def nameEvents (events : List Event) : Except NameError (List (Event × EventNames)) :=
  nameEventsAfter ⟨[], []⟩ events

/-! ## Text -/

/-- The comments of the banner, and an empty line after them unless the banner is blank. -/
def bannerText (banner : List Char) : List Char :=
  lineComments banner ++ if Text.trim banner = [] then [] else ['\n']

/-- The line at the end of the header. -/
def lintLine : List Char := "/* eslint-disable */\n".toList

/-- What stands in front of the events. -/
def header (options : ModuleOptions) : List Char := bannerText options.banner.toList ++ lintLine

/-- The text of an event's comment: its title and, after an empty line, its description. -/
def eventDoc (event : Event) : List Char :=
  event.title.toList ++
    match (event.schema.field? "description").bind Tree.string? with
    | some description => '\n' :: '\n' :: description.toList
    | none => []

/-- The declaration of the properties of an event: an interface if they are an object, and a type
otherwise. -/
def propertiesDeclaration (name : List Char) (type : TypeExpr) : List Char :=
  match type with
  | .object properties index =>
    "export interface ".toList ++ name ++ " \x7b\n".toList ++
      TypeExpr.renderMembers 1 properties index ++ "\x7d\n".toList
  | type => "export type ".toList ++ name ++ " = ".toList ++ type.render 0 ++ ";\n".toList

/-- The line that gives an event its title. -/
def titleLine (options : ModuleOptions) (title : String) (ending : Char) : List Char :=
  if options.includeEventName then
    "  event: ".toList ++ (Text.Quoted.quote title).toList ++ [ending, '\n']
  else []

/-- The lines for the two ways to name a user. -/
def identityLines : List Char := "  userId?: string;\n  anonymousId?: string;\n".toList

/-- The line for the properties of an event. -/
def propertiesLine (names : EventNames) : List Char :=
  "  properties: ".toList ++ names.propertiesType.toList ++ ";\n".toList

/-- The parameters, which go into the event as they are. -/
def parameterLines : List Char := "  userId,\n  anonymousId,\n  properties,\n".toList

/-- The declaration of an event. -/
def eventDeclaration (options : ModuleOptions) (event : Event) (names : EventNames) : List Char :=
  "export interface ".toList ++ names.eventType.toList ++ " \x7b\n".toList ++
    titleLine options event.title ';' ++ identityLines ++ propertiesLine names ++ "\x7d\n".toList

/-- The declaration of the function that builds an event. -/
def factoryDeclaration (options : ModuleOptions) (event : Event) (names : EventNames) : List Char :=
  docComment 0 ("Build a ".toList ++ (Text.Quoted.quote event.title).toList ++ " event.".toList) ++
    "export const ".toList ++ names.factory.toList ++ " = (\x7b\n".toList ++ parameterLines ++
    "\x7d: \x7b\n".toList ++ identityLines ++ propertiesLine names ++
    "\x7d): ".toList ++ names.eventType.toList ++ " => (\x7b\n".toList ++
    titleLine options event.title ',' ++ parameterLines ++ "\x7d);\n".toList

/-- The three declarations of an event, with an empty line in front of each. -/
def block (options : ModuleOptions) (event : Event) (names : EventNames) : List Char :=
  '\n' :: docComment 0 (eventDoc event) ++
    propertiesDeclaration names.propertiesType.toList (lower event.schema) ++
    '\n' :: eventDeclaration options event names ++
    '\n' :: factoryDeclaration options event names

/-- The module of some named events. -/
def moduleText (options : ModuleOptions) (named : List (Event × EventNames)) : List Char :=
  header options ++ named.flatMap fun e => block options e.1 e.2

end EventSchema.TypeScript

namespace EventSchema

/-- The TypeScript module of a catalog. -/
def Catalog.module (options : TypeScript.ModuleOptions) (catalog : Catalog) :
    Except TypeScript.NameError String := do
  return String.ofList (TypeScript.moduleText options (← TypeScript.nameEvents catalog.events))

end EventSchema
