import EventSchema.TypeScript.Module

/-!
# Settings

What a compilation needs to know is put together from layers: a file, the environment, the command
line. A layer need not say everything, and a later layer wins where both say something.

* `Settings.Layer`, `Layer.above` — one layer, and one laid over another;
* `Layer.ofLookup` — the layer of the environment;
* `Layer.complete` — the settings, where the pattern and the output must be given by some layer.
-/

namespace EventSchema

/-- What a compilation needs to know. -/
structure Settings where
  /-- selects the documents -/
  pattern : String
  /-- the file that the module is written to -/
  output : String
  options : TypeScript.ModuleOptions
  deriving DecidableEq

/-- A setting without a default. -/
inductive Setting where
  | pattern
  | output
  deriving DecidableEq, Repr

namespace Setting

/-- The name in a settings file. -/
def name : Setting → String
  | pattern => "pattern"
  | output => "output"

/-- The environment variable that holds the setting. -/
def environmentName : Setting → String
  | pattern => "EVGEN_PATTERN"
  | output => "EVGEN_OUTPUT"

end Setting

/-- Why there are no settings. -/
inductive SettingsError where
  /-- the file cannot be read -/
  | unreadable (file reason : String)
  /-- the file holds no settings -/
  | malformed (file : String)
  /-- no layer has the setting -/
  | missing (setting : Setting)
  deriving DecidableEq

/-- The text of an error. -/
def SettingsError.message : SettingsError → String
  | unreadable file reason => "cannot read config file " ++ file ++ ": " ++ reason
  | malformed file => "invalid config file " ++ file
  | missing setting =>
    "no " ++ setting.name ++ " configured (set it in the config file, via " ++
      setting.environmentName ++ ", or on the command line)"

namespace Settings

/-- What one source says. -/
structure Layer where
  pattern : Option String
  output : Option String
  banner : Option String
  includeEventName : Option Bool
  deriving DecidableEq

namespace Layer

/-- The layer that says nothing. -/
def empty : Layer := ⟨none, none, none, none⟩

/-- A layer laid above another: what it sets wins. -/
def above (upper lower : Layer) : Layer :=
  { pattern := upper.pattern.or lower.pattern
    output := upper.output.or lower.output
    banner := upper.banner.or lower.banner
    includeEventName := upper.includeEventName.or lower.includeEventName }

/-- The layer of the environment. A variable without text counts as unset. -/
def ofLookup (lookup : String → Option String) : Layer :=
  let value (s : Setting) : Option String := (lookup s.environmentName).filter (· ≠ "")
  { empty with pattern := value .pattern, output := value .output }

/-- The settings that a layer gives, with the defaults of a module. -/
def complete (layer : Layer) : Except SettingsError Settings :=
  match layer.pattern, layer.output with
  | none, _ => .error (.missing .pattern)
  | _, none => .error (.missing .output)
  | some pattern, some output =>
    let default := TypeScript.ModuleOptions.default
    .ok ⟨pattern, output,
      ⟨layer.banner.getD default.banner, layer.includeEventName.getD default.includeEventName⟩⟩

end Layer

end Settings

end EventSchema
