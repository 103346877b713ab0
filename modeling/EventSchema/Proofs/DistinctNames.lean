import EventSchema.Proofs.ModuleText
import EventSchema.Proofs.Outcomes
import Mathlib.Data.List.Nodup
import Mathlib.Data.List.Pairwise
import Mathlib.Data.String.Basic

/-!
# Generated names are distinct

A module declares three names for each event. Two titles may give the same name only if they give
the same type of properties, and then there is no module.

* `Pascal` — what the words of a title look like: ASCII letters and digits, no small letter first;
* `eq_of_mem_exported` — a name tells its kind, and the type of properties of its event;
* `Admits`, `exists_named_iff` — the events can be named if each has words, and no two have one type
  of properties;
* `Recorded` — every name that was given is remembered with its title, so that a duplicate is
  reported with the title that had the name before (`duplicate_of_nameEventsAfter`);
* `module_names_distinct` — when a catalog has a module, and the names in it.
-/

namespace EventSchema

namespace TypeScript

/-! ## The words of a title -/

/-- The words of a title: letters and digits, of which the first is no small letter. -/
def Pascal (cs : List Char) : Prop :=
  ∃ c rest, cs = c :: rest ∧ (c.isUpper = true ∨ c.isDigit = true) ∧
    ∀ d ∈ rest, d.isAlphanum = true

/-- The capitals by their code points. -/
theorem isUpper_iff_toNat {c : Char} : c.isUpper = true ↔ 65 ≤ c.toNat ∧ c.toNat ≤ 90 :=
  decide_eq_true_iff

/-- The small letters by their code points. -/
theorem isLower_iff_toNat {c : Char} : c.isLower = true ↔ 97 ≤ c.toNat ∧ c.toNat ≤ 122 := by
  change (decide (97 ≤ c.toNat) && decide (c.toNat ≤ 122)) = true ↔ _
  rw [Bool.and_eq_true, decide_eq_true_iff, decide_eq_true_iff]

/-- Capitals, small letters and digits. -/
theorem isAlphanum_iff {c : Char} :
    c.isAlphanum = true ↔ c.isUpper = true ∨ c.isLower = true ∨ c.isDigit = true := by
  change (c.isUpper || c.isLower || c.isDigit) = true ↔ _
  rw [Bool.or_eq_true, Bool.or_eq_true, or_assoc]

/-- The capital of a small letter stands 32 code points before it. -/
theorem toNat_toUpper {c : Char} (h : c.isLower = true) : c.toUpper.toNat = c.toNat - 32 := by
  have hlower := isLower_iff_toNat.1 h
  have hval : 'a'.val ≤ c.val ∧ c.val ≤ 'z'.val := hlower
  have hupper : c.toUpper = ⟨c.val + ('A'.val - 'a'.val), _⟩ := dif_pos hval
  have hshift : ('A'.val - 'a'.val).toNat = 4294967264 := by decide
  rw [hupper]
  change (c.val + ('A'.val - 'a'.val)).toNat = _
  rw [UInt32.toNat_add, hshift, Char.toNat_val]
  omega

/-- A letter is made a capital, and a digit stays one. -/
theorem isUpper_or_isDigit_toUpper {c : Char} (h : c.isAlphanum = true) :
    c.toUpper.isUpper = true ∨ c.toUpper.isDigit = true := by
  by_cases hlower : c.isLower = true
  · left
    have hcode := isLower_iff_toNat.1 hlower
    rw [isUpper_iff_toNat, toNat_toUpper hlower]
    omega
  · have hsame : c.toUpper = c := dif_neg fun hval => hlower (isLower_iff_toNat.2 hval)
    rw [hsame]
    rcases isAlphanum_iff.1 h with hupper | hlower' | hdigit
    · exact .inl hupper
    · exact absurd hlower' hlower
    · exact .inr hdigit

/-- Capitals and digits are letters and digits. -/
theorem isAlphanum_of_isUpper_or_isDigit {c : Char} (h : c.isUpper = true ∨ c.isDigit = true) :
    c.isAlphanum = true :=
  isAlphanum_iff.2 (h.imp_right .inr)

/-- Nothing but letters and digits is left of a text. -/
theorem isAlphanum_of_mem_pascalChars {cs : List Char} {start : Bool} :
    ∀ c ∈ pascalChars start cs, c.isAlphanum = true := by
  induction cs generalizing start with
  | nil => exact nofun
  | cons c rest ih =>
    rw [pascalChars]
    split
    · next hc =>
      intro d hd
      rcases List.mem_cons.1 hd with rfl | hd
      · cases start with
        | false => exact hc
        | true => exact isAlphanum_of_isUpper_or_isDigit (isUpper_or_isDigit_toUpper hc)
      · exact ih d hd
    · exact ih

/-- Nothing is left of a text exactly if it has no letters and digits. -/
theorem pascalChars_eq_nil_iff {cs : List Char} {start : Bool} :
    pascalChars start cs = [] ↔ ¬ ∃ c ∈ cs, c.isAlphanum = true := by
  induction cs generalizing start with
  | nil => simp [pascalChars]
  | cons c rest ih =>
    rw [pascalChars]
    split
    · next hc => simp [hc]
    · next hc => simp [hc, ih]

/-- What is left of a title are words. -/
theorem pascal_of_pascalChars {cs : List Char} (h : pascalChars true cs ≠ []) :
    Pascal (pascalChars true cs) := by
  induction cs with
  | nil => exact absurd rfl h
  | cons c rest ih =>
    rw [pascalChars] at h ⊢
    split at h
    · next hc =>
      rw [if_pos hc]
      exact ⟨_, _, rfl, isUpper_or_isDigit_toUpper hc, isAlphanum_of_mem_pascalChars⟩
    · next hc =>
      rw [if_neg hc]
      exact ih h

/-- A word of letters and digits may stand in front of the words of a title. -/
theorem Pascal.isAlphanum_of_mem_append {word cs : List Char} (h : Pascal cs)
    (hword : word.all Char.isAlphanum = true) : ∀ d ∈ word ++ cs, d.isAlphanum = true := by
  obtain ⟨c, rest, rfl, hfirst, hrest⟩ := h
  intro d hd
  rcases List.mem_append.1 hd with hd | hd
  · exact List.all_eq_true.1 hword d hd
  · rcases List.mem_cons.1 hd with rfl | hd
    · exact isAlphanum_of_isUpper_or_isDigit hfirst
    · exact hrest d hd

/-! ## The names of one title -/

/-- The names that a module declares for an event. -/
def EventNames.exported (names : EventNames) : List String :=
  [names.factory, names.propertiesType, names.eventType]

/-- A letter, and then letters and digits. -/
def IsPlainName (name : String) : Prop :=
  ∃ c rest, name.toList = c :: rest ∧ c.isAlpha = true ∧ ∀ d ∈ rest, d.isAlphanum = true

/-- The words of a title in the names of types. -/
def typeBase (pascal : String) : String :=
  if startsWithDigit pascal then "Event" ++ pascal else pascal

/-- The names of a title are made from its words. -/
structure EventNames.Named (names : EventNames) : Prop where
  pascal : Pascal names.pascal.toList
  factory : names.factory = "make" ++ names.pascal
  propertiesType : names.propertiesType = typeBase names.pascal ++ "Properties"
  eventType : names.eventType = typeBase names.pascal ++ "Event"

variable {title : String} {names names' : EventNames} {name : String}

/-- A title gives names made from words. -/
theorem named_of_ofTitle? (h : EventNames.ofTitle? title = some names) : names.Named := by
  rw [EventNames.ofTitle?, pascalCase?] at h
  cases hchars : pascalChars true title.toList with
  | nil => simp [hchars] at h
  | cons c rest =>
    have hpascal : Pascal (pascalChars true title.toList) :=
      pascal_of_pascalChars (by simp [hchars])
    simp only [hchars, Option.map_some, Option.some.injEq] at h
    subst h
    rw [hchars] at hpascal
    exact ⟨by rwa [EventNames.ofPascal, String.toList_ofList], rfl, rfl, rfl⟩

/-- A title gives names exactly if it has letters or digits. -/
theorem exists_ofTitle?_iff :
    (∃ names, EventNames.ofTitle? title = some names) ↔
      ∃ c ∈ title.toList, c.isAlphanum = true := by
  have hnone : pascalChars true title.toList = [] ↔ ¬ ∃ c ∈ title.toList, c.isAlphanum = true :=
    pascalChars_eq_nil_iff
  rw [← not_iff_not, ← hnone, EventNames.ofTitle?, pascalCase?]
  cases hchars : pascalChars true title.toList <;> simp

namespace EventNames.Named

/-- The names of types start with a capital. -/
theorem typeBase_eq_cons (h : names.Named) :
    ∃ c rest, (typeBase names.pascal).toList = c :: rest ∧ c.isUpper = true ∧
      ∀ d ∈ rest, d.isAlphanum = true := by
  obtain ⟨c, rest, hchars, hfirst, hrest⟩ := h.pascal
  rw [typeBase, startsWithDigit, hchars, List.head?_cons, Option.any_some]
  cases hdigit : c.isDigit with
  | false => exact ⟨c, rest, by simpa using hchars, by simpa [hdigit] using hfirst, hrest⟩
  | true =>
    exact ⟨'E', "vent".toList ++ names.pascal.toList, by simp, rfl,
      h.pascal.isAlphanum_of_mem_append (by decide)⟩

/-- What stands behind the words keeps a name plain. -/
theorem isPlainName_append (h : names.Named) {ending : String}
    (hending : ∀ d ∈ ending.toList, d.isAlphanum = true) :
    IsPlainName (typeBase names.pascal ++ ending) := by
  obtain ⟨c, rest, hchars, hfirst, hrest⟩ := h.typeBase_eq_cons
  have halpha : (c.isUpper || c.isLower) = true := by rw [hfirst, Bool.true_or]
  refine ⟨c, rest ++ ending.toList, by simp [hchars], halpha, fun d hd => ?_⟩
  rcases List.mem_append.1 hd with hd | hd
  · exact hrest d hd
  · exact hending d hd

/-- The declared names are plain. -/
theorem isPlainName (h : names.Named) : ∀ name ∈ names.exported, IsPlainName name := by
  intro name hname
  simp only [exported, List.mem_cons, List.not_mem_nil, or_false] at hname
  rcases hname with rfl | rfl | rfl
  · rw [h.factory]
    exact ⟨'m', "ake".toList ++ names.pascal.toList, by simp, rfl,
      h.pascal.isAlphanum_of_mem_append (by decide)⟩
  · rw [h.propertiesType]
    exact h.isPlainName_append (List.all_eq_true.1 (by decide))
  · rw [h.eventType]
    exact h.isPlainName_append (List.all_eq_true.1 (by decide))

/-- The name of a function is no name of a type, whatever stands behind the words. -/
theorem factory_ne (h : names.Named) (h' : names'.Named) (ending : String) :
    names.factory ≠ typeBase names'.pascal ++ ending := by
  obtain ⟨c, rest, hchars, hfirst, -⟩ := h'.typeBase_eq_cons
  intro heq
  have hhead := congrArg (fun name => name.toList.head?) (h.factory.symm.trans heq)
  simp [hchars] at hhead
  subst hhead
  exact absurd hfirst (by decide)

/-- The type of an event is no type of properties. -/
theorem eventType_ne (h : names.Named) (h' : names'.Named) :
    names.eventType ≠ names'.propertiesType := by
  rw [h.eventType, h'.propertiesType]
  intro heq
  have hlast := congrArg (fun name => name.toList.getLast?) heq
  simp at hlast

/-- The function that builds an event tells its types. -/
theorem propertiesType_of_factory (h : names.Named) (h' : names'.Named)
    (heq : names.factory = names'.factory) : names.propertiesType = names'.propertiesType := by
  rw [h.factory, h'.factory] at heq
  have hpascal : names.pascal = names'.pascal := by
    simpa using heq
  rw [h.propertiesType, h'.propertiesType, hpascal]

/-- So does the type of an event. -/
theorem propertiesType_of_eventType (h : names.Named) (h' : names'.Named)
    (heq : names.eventType = names'.eventType) : names.propertiesType = names'.propertiesType := by
  rw [h.eventType, h'.eventType] at heq
  have hbase : typeBase names.pascal = typeBase names'.pascal := by
    simpa using heq
  rw [h.propertiesType, h'.propertiesType, hbase]

/-- Two titles share a name only if they share the type of properties. -/
theorem eq_of_mem_exported (h : names.Named) (h' : names'.Named) (hname : name ∈ names.exported)
    (hname' : name ∈ names'.exported) : names.propertiesType = names'.propertiesType := by
  simp only [exported, List.mem_cons, List.not_mem_nil, or_false] at hname hname'
  rcases hname with rfl | rfl | rfl
  · rcases hname' with heq | heq | heq
    · exact h.propertiesType_of_factory h' heq
    · exact absurd (heq.trans h'.propertiesType) (h.factory_ne h' _)
    · exact absurd (heq.trans h'.eventType) (h.factory_ne h' _)
  · rcases hname' with heq | heq | heq
    · exact absurd (heq.symm.trans h.propertiesType) (h'.factory_ne h _)
    · exact heq
    · exact absurd heq.symm (h'.eventType_ne h)
  · rcases hname' with heq | heq | heq
    · exact absurd (heq.symm.trans h.eventType) (h'.factory_ne h _)
    · exact absurd heq (h.eventType_ne h')
    · exact h.propertiesType_of_eventType h' heq

/-- The three names of a title are different. -/
theorem nodup_exported (h : names.Named) : names.exported.Nodup := by
  have htypes := h.factory_ne h
  simp only [exported, List.nodup_cons, List.mem_cons, List.not_mem_nil, or_false, not_or,
    not_false_eq_true, List.nodup_nil, and_true]
  refine ⟨⟨?_, ?_⟩, (h.eventType_ne h).symm⟩
  · exact h.propertiesType ▸ htypes _
  · exact h.eventType ▸ htypes _

end EventNames.Named

/-! ## The names of several titles -/

/-- The type of properties that a title gives. -/
def propertiesType? (title : String) : Option String :=
  (EventNames.ofTitle? title).map (·.propertiesType)

/-- It is the one among the names of the title. -/
theorem propertiesType?_of_ofTitle? (h : EventNames.ofTitle? title = some names) :
    propertiesType? title = some names.propertiesType := by
  rw [propertiesType?, h]
  rfl

/-- Two titles give one name, both to the same kind of declaration. -/
def ShareName (identifier first second : String) : Prop :=
  ∃ names names', EventNames.ofTitle? first = some names ∧
    EventNames.ofTitle? second = some names' ∧
      (names.factory = identifier ∧ names'.factory = identifier ∨
        names.propertiesType = identifier ∧ names'.propertiesType = identifier)

/-- A title can be given its names after the others. -/
structure GivenNames.Admits (given : GivenNames) (title : String) (names : EventNames) : Prop where
  ofTitle : EventNames.ofTitle? title = some names
  factory : given.factories.lookup names.factory = none
  type : given.types.lookup names.propertiesType = none

/-- The given names with those of one more title. -/
def GivenNames.add (given : GivenNames) (title : String) (names : EventNames) : GivenNames :=
  ⟨(names.factory, title) :: given.factories, (names.propertiesType, title) :: given.types⟩

variable {given given' : GivenNames} {event : Event} {events rest earlier : List Event}
  {named : List (Event × EventNames)} {title' identifier first second : String}

/-- A name that is looked up was given just now, or before. -/
theorem lookup_given (key : String) (entries : List (String × String)) :
    ((key, title) :: entries).lookup name =
      if name = key then some title else entries.lookup name := by
  rw [List.lookup_cons]
  split <;> simp_all

/-- A title is given its names if it can be. -/
theorem give_of_admits (h : given.Admits title names) :
    given.give title = .ok (names, given.add title names) := by
  simp only [GivenNames.give, h.ofTitle, h.factory, h.type]
  rfl

/-- Otherwise it is given none. -/
theorem admits_of_give (h : given.give title = .ok (names, given')) :
    given.Admits title names ∧ given' = given.add title names := by
  rw [GivenNames.give] at h
  cases hnames : EventNames.ofTitle? title with
  | none => simp [hnames] at h
  | some found =>
    simp only [hnames] at h
    split at h
    · cases h
    · cases h
    · next hfactory htype =>
      cases h
      exact ⟨⟨hnames, hfactory, htype⟩, rfl⟩

/-- A duplicate is a name of the title at hand, given to an earlier title as a name of its kind. -/
theorem lookup_of_give
    (h : given.give title = .error (.duplicateIdentifier identifier first second)) :
    second = title ∧ ∃ names, EventNames.ofTitle? title = some names ∧
      (names.factory = identifier ∧ given.factories.lookup identifier = some first ∨
        names.propertiesType = identifier ∧ given.types.lookup identifier = some first) := by
  rw [GivenNames.give] at h
  cases hnames : EventNames.ofTitle? title with
  | none => simp [hnames] at h
  | some names =>
    simp only [hnames] at h
    split at h
    · next hfactory =>
      cases h
      exact ⟨rfl, names, rfl, .inl ⟨rfl, hfactory⟩⟩
    · next htype =>
      cases h
      exact ⟨rfl, names, rfl, .inr ⟨rfl, htype⟩⟩
    · cases h

/-- The events after one that can be named. -/
theorem nameEventsAfter_of_admits (h : given.Admits event.title names) :
    nameEventsAfter given (event :: rest) =
      (nameEventsAfter (given.add event.title names) rest).map ((event, names) :: ·) := by
  rw [nameEventsAfter, give_of_admits h]
  cases hrest : nameEventsAfter (given.add event.title names) rest <;>
    simp [bind, Except.bind, pure, Except.pure, hrest, Except.map]

/-- The first event that cannot be named ends the naming. -/
theorem nameEventsAfter_of_error {e : NameError} (h : given.give event.title = .error e) :
    nameEventsAfter given (event :: rest) = .error e := by
  rw [nameEventsAfter, h]
  rfl

/-- Once a title was given its names, those with another type of properties can still be given
theirs. -/
theorem admits_add_iff (h : given.Admits title names) :
    (given.add title names).Admits title' names' ↔
      given.Admits title' names' ∧ names.propertiesType ≠ names'.propertiesType := by
  have hfree : ∀ (entries : List (String × String)) (key other : String),
      ((key, title) :: entries).lookup other = none ↔
        key ≠ other ∧ entries.lookup other = none := by
    intro entries key other
    rw [lookup_given]
    by_cases hother : other = key
    · simp [hother]
    · simp [hother, Ne.symm hother]
  constructor
  · intro hadmits
    obtain ⟨-, hfactory⟩ := (hfree _ _ _).1 hadmits.factory
    obtain ⟨hne, htype⟩ := (hfree _ _ _).1 hadmits.type
    exact ⟨⟨hadmits.ofTitle, hfactory, htype⟩, hne⟩
  · rintro ⟨hadmits, hne⟩
    -- a shared function would mean a shared type
    have hfactory : names.factory ≠ names'.factory := fun heq =>
      hne ((named_of_ofTitle? h.ofTitle).propertiesType_of_factory
        (named_of_ofTitle? hadmits.ofTitle) heq)
    exact ⟨hadmits.ofTitle, (hfree _ _ _).2 ⟨hfactory, hadmits.factory⟩,
      (hfree _ _ _).2 ⟨hne, hadmits.type⟩⟩

/-- Events can be named if each of them can be after the names given before, and no two of them
share the type of properties. -/
theorem exists_named_iff :
    (∃ named, nameEventsAfter given events = .ok named) ↔
      (∀ event ∈ events, ∃ names, given.Admits event.title names) ∧
        events.Pairwise fun d e => ∀ name, propertiesType? d.title = some name →
          propertiesType? e.title ≠ some name := by
  induction events generalizing given with
  | nil => exact ⟨fun _ => ⟨nofun, .nil⟩, fun _ => ⟨[], rfl⟩⟩
  | cons event rest ih =>
    cases hgive : given.give event.title with
    | error e =>
      rw [nameEventsAfter_of_error hgive]
      refine ⟨nofun, fun h => ?_⟩
      obtain ⟨hadmits, -⟩ := h
      obtain ⟨names, hnames⟩ := hadmits event List.mem_cons_self
      rw [give_of_admits hnames] at hgive
      cases hgive
    | ok answer =>
      obtain ⟨hfirst, -⟩ := admits_of_give hgive
      have hrest : (∃ named, nameEventsAfter given (event :: rest) = .ok named) ↔
          ∃ named, nameEventsAfter (given.add event.title answer.1) rest = .ok named := by
        rw [nameEventsAfter_of_admits hfirst]
        cases nameEventsAfter (given.add event.title answer.1) rest <;> simp [Except.map]
      rw [hrest, ih, List.pairwise_cons]
      simp only [admits_add_iff hfirst, List.forall_mem_cons]
      constructor
      · rintro ⟨hadmits, hpairs⟩
        refine ⟨⟨⟨_, hfirst⟩, fun e he => ?_⟩, fun e he name hname hname' => ?_, hpairs⟩
        · obtain ⟨names, hnames, -⟩ := hadmits e he
          exact ⟨names, hnames⟩
        · obtain ⟨names, hnames, hne⟩ := hadmits e he
          rw [propertiesType?_of_ofTitle? hfirst.ofTitle] at hname
          rw [propertiesType?_of_ofTitle? hnames.ofTitle] at hname'
          exact hne (Option.some.inj (hname.trans hname'.symm))
      · rintro ⟨⟨-, hadmits⟩, hdifferent, hpairs⟩
        refine ⟨fun e he => ?_, hpairs⟩
        obtain ⟨names, hnames⟩ := hadmits e he
        refine ⟨names, hnames, fun heq => ?_⟩
        refine hdifferent e he _ (propertiesType?_of_ofTitle? hfirst.ofTitle) ?_
        rw [propertiesType?_of_ofTitle? hnames.ofTitle, heq]

/-- The names of different types of properties are all different. -/
theorem nodup_names (hnamed : ∀ e ∈ named, EventNames.ofTitle? e.1.title = some e.2)
    (hpairs : (named.map (·.1)).Pairwise fun d e => ∀ name, propertiesType? d.title = some name →
      propertiesType? e.title ≠ some name) : (named.flatMap fun e => e.2.exported).Nodup := by
  refine List.nodup_flatMap.2 ⟨fun e he => (named_of_ofTitle? (hnamed e he)).nodup_exported, ?_⟩
  refine (List.pairwise_map.1 hpairs).imp_of_mem fun {d e} hd he hdifferent => ?_
  refine List.disjoint_left.2 fun name hname hname' => ?_
  have heq := (named_of_ofTitle? (hnamed d hd)).eq_of_mem_exported
    (named_of_ofTitle? (hnamed e he)) hname hname'
  refine hdifferent _ (propertiesType?_of_ofTitle? (hnamed d hd)) ?_
  rw [propertiesType?_of_ofTitle? (hnamed e he), heq]

/-! ## Duplicates -/

/-- All names of one kind that were given are those of earlier events, under their titles. -/
def Recorded (kind : EventNames → String) (entries : List (String × String))
    (earlier : List Event) : Prop :=
  ∀ name title, entries.lookup name = some title →
    ∃ d ∈ earlier, d.title = title ∧
      ∃ names, EventNames.ofTitle? title = some names ∧ kind names = name

/-- At first no name is recorded. -/
theorem recorded_nil (kind : EventNames → String) : Recorded kind [] [] := by
  intro name title hlookup
  cases hlookup

/-- The name of one more event is recorded with the others. -/
theorem Recorded.cons {kind : EventNames → String} {entries : List (String × String)}
    (h : Recorded kind entries earlier) (hnames : EventNames.ofTitle? event.title = some names) :
    Recorded kind ((kind names, event.title) :: entries) (earlier ++ [event]) := by
  intro name title hlookup
  rw [lookup_given] at hlookup
  split at hlookup
  · next hname =>
    obtain rfl := Option.some.inj hlookup
    exact ⟨event, by simp, rfl, names, hnames, hname.symm⟩
  · obtain ⟨d, hd, hfound⟩ := h name title hlookup
    exact ⟨d, List.mem_append_left _ hd, hfound⟩

/-- Both kinds of names that were given are those of earlier events. -/
structure GivenNames.Records (given : GivenNames) (earlier : List Event) : Prop where
  factories : Recorded (·.factory) given.factories earlier
  types : Recorded (·.propertiesType) given.types earlier

/-- A duplicate is reported for two events, the first of which stands in front of the second, and
whose titles share the name. -/
theorem duplicate_of_nameEventsAfter (hgiven : given.Records earlier)
    (h : nameEventsAfter given events = .error (.duplicateIdentifier identifier first second)) :
    ∃ before d between e after, earlier ++ events = before ++ d :: between ++ e :: after ∧
      d.title = first ∧ e.title = second ∧ ShareName identifier first second := by
  induction events generalizing given earlier with
  | nil => cases h
  | cons event rest ih =>
    cases hgive : given.give event.title with
    | error error =>
      rw [nameEventsAfter_of_error hgive] at h
      cases h
      obtain ⟨rfl, names, hnames, hfound⟩ := lookup_of_give hgive
      have hearlier : ∃ d ∈ earlier, d.title = first ∧ ShareName identifier first event.title := by
        rcases hfound with ⟨hname, hlookup⟩ | ⟨hname, hlookup⟩
        · obtain ⟨d, hd, htitle, names', hnames', hname'⟩ := hgiven.factories _ _ hlookup
          exact ⟨d, hd, htitle, names', names, hnames', hnames, .inl ⟨hname', hname⟩⟩
        · obtain ⟨d, hd, htitle, names', hnames', hname'⟩ := hgiven.types _ _ hlookup
          exact ⟨d, hd, htitle, names', names, hnames', hnames, .inr ⟨hname', hname⟩⟩
      obtain ⟨d, hd, htitle, hshare⟩ := hearlier
      obtain ⟨before, between, rfl⟩ := List.append_of_mem hd
      exact ⟨before, d, between, event, rest, rfl, htitle, rfl, hshare⟩
    | ok answer =>
      obtain ⟨hadmits, -⟩ := admits_of_give hgive
      rw [nameEventsAfter_of_admits hadmits] at h
      cases hrest : nameEventsAfter (given.add event.title answer.1) rest with
      | ok named =>
        rw [hrest] at h
        cases h
      | error error =>
        rw [hrest] at h
        obtain rfl := Except.error.inj h
        have hgiven' : (given.add event.title answer.1).Records (earlier ++ [event]) :=
          ⟨hgiven.factories.cons hadmits.ofTitle, hgiven.types.cons hadmits.ofTitle⟩
        have hsplit := ih hgiven' hrest
        rwa [List.append_assoc, List.singleton_append] at hsplit

end TypeScript

/-! ## Modules -/

open TypeScript

/-- No two events share the type of properties if their titles tell it apart. -/
theorem pairwise_propertiesType_iff (catalog : Catalog) :
    (catalog.events.Pairwise fun d e => ∀ name, propertiesType? d.title = some name →
      propertiesType? e.title ≠ some name) ↔
      ∀ d ∈ catalog.events, ∀ e ∈ catalog.events, ∀ name, propertiesType? d.title = some name →
        propertiesType? e.title = some name → d.title = e.title := by
  constructor
  · intro hpairs d hd e he name hname hname'
    have hsymm : Std.Symm fun d e : Event => ∀ name, propertiesType? d.title = some name →
        propertiesType? e.title ≠ some name := ⟨fun d e h name hname hname' => h name hname' hname⟩
    by_contra hne
    have hde : d ≠ e := fun heq => hne (congrArg Event.title heq)
    exact hpairs.forall hd he hde name hname hname'
  · intro htells
    refine catalog.pairwise_title_lt.imp_of_mem fun {d e} hd he hlt name hname hname' => ?_
    exact absurd (htells d hd e he name hname hname') hlt.ne

/-- A module is written once the events are named. -/
theorem module_eq_map (options : ModuleOptions) (catalog : Catalog) :
    catalog.module options =
      (nameEvents catalog.events).map fun named => String.ofList (moduleText options named) := by
  rw [Catalog.module]
  cases nameEvents catalog.events <;> rfl

/-- A catalog has a module exactly if every title has a letter or a digit and no two titles give one
type of properties. The names that are then declared are all different, over all events and all
three kinds, and each is a letter with letters and digits behind it. A duplicate is reported for two
titles of the catalog, the first of which is before the second, and which give the name to the same
kind of declaration. -/
theorem module_names_distinct (catalog : Catalog) (options : ModuleOptions) :
    ((∃ text, catalog.module options = .ok text) ↔
      (∀ event ∈ catalog.events, ∃ c ∈ event.title.toList, c.isAlphanum = true) ∧
        ∀ d ∈ catalog.events, ∀ e ∈ catalog.events, ∀ name, propertiesType? d.title = some name →
          propertiesType? e.title = some name → d.title = e.title) ∧
    (∀ text, catalog.module options = .ok text →
      ∃ named : List (Event × EventNames), named.map (·.1) = catalog.events ∧
        (∀ e ∈ named, EventNames.ofTitle? e.1.title = some e.2) ∧
        text.toList = moduleText options named ∧
        (named.flatMap fun e => e.2.exported).Nodup ∧
        ∀ e ∈ named, ∀ name ∈ e.2.exported, IsPlainName name) ∧
    ∀ identifier first second,
      catalog.module options = .error (.duplicateIdentifier identifier first second) →
        first < second ∧ (∃ d ∈ catalog.events, d.title = first) ∧
          (∃ e ∈ catalog.events, e.title = second) ∧ ShareName identifier first second := by
  have hadmits : ∀ title, (∃ names, GivenNames.Admits ⟨[], []⟩ title names) ↔
      ∃ names, EventNames.ofTitle? title = some names := fun title =>
    exists_congr fun names => ⟨fun h => h.ofTitle, fun h => ⟨h, rfl, rfl⟩⟩
  rw [module_eq_map, nameEvents]
  refine ⟨?_, fun text htext => ?_, fun identifier first second herror => ?_⟩
  · rw [← pairwise_propertiesType_iff]
    simp only [← exists_ofTitle?_iff, ← hadmits]
    rw [← exists_named_iff]
    cases nameEventsAfter ⟨[], []⟩ catalog.events <;> simp [Except.map]
  · cases hnamed : nameEventsAfter ⟨[], []⟩ catalog.events with
    | error e => simp [hnamed, Except.map] at htext
    | ok named =>
      obtain ⟨hmap, hnames⟩ := names_of_nameEventsAfter hnamed
      obtain ⟨-, hpairs⟩ := exists_named_iff.1 ⟨named, hnamed⟩
      rw [hnamed] at htext
      obtain rfl := Except.ok.inj htext
      refine ⟨named, hmap, hnames, String.toList_ofList, nodup_names hnames (hmap ▸ hpairs), ?_⟩
      exact fun e he => (named_of_ofTitle? (hnames e he)).isPlainName
  · cases hnamed : nameEventsAfter ⟨[], []⟩ catalog.events with
    | ok named => simp [hnamed, Except.map] at herror
    | error e =>
      rw [hnamed] at herror
      obtain rfl := Except.error.inj herror
      have hnone : GivenNames.Records ⟨[], []⟩ [] := ⟨recorded_nil _, recorded_nil _⟩
      obtain ⟨before, d, between, e, after, hsplit, rfl, rfl, hshare⟩ :=
        duplicate_of_nameEventsAfter hnone hnamed
      rw [List.nil_append] at hsplit
      have hlt : d.title < e.title :=
        (List.pairwise_append.1 (hsplit ▸ catalog.pairwise_title_lt)).2.2 d (by simp) e
          List.mem_cons_self
      exact ⟨hlt, ⟨d, by simp [hsplit], rfl⟩, ⟨e, by simp [hsplit], rfl⟩, hshare⟩

/-- Two events with the titles given, from schemas that hold nothing else. -/
def titledCatalog (first second : String) : Catalog :=
  Catalog.empty
    |>.insert ⟨first, ⟨["earlier.json".toList], by decide⟩, .map [("title", .str first)]⟩
    |>.insert ⟨second, ⟨["later.json".toList], by decide⟩, .map [("title", .str second)]⟩

/-- A title that starts with a digit can share a type with another title, although the functions
differ. Without such a title there are six names. -/
theorem module_names_digitTitles :
    (titledCatalog "2fa" "event 2fa").module .default =
        .error (.duplicateIdentifier "Event2faProperties" "2fa" "event 2fa") ∧
      ShareName "Event2faProperties" "2fa" "event 2fa" ∧
      ∃ text named, (titledCatalog "2fa" "sign-up (v2)").module .default = .ok text ∧
        text.toList = moduleText .default named ∧
        (named.flatMap fun e => e.2.exported).Nodup := by
  have herror : (titledCatalog "2fa" "event 2fa").module .default =
      .error (.duplicateIdentifier "Event2faProperties" "2fa" "event 2fa") := by
    decide +kernel
  obtain ⟨text, htext⟩ : ∃ text, (titledCatalog "2fa" "sign-up (v2)").module .default = .ok text :=
    exists_of_isOk (by decide +kernel)
  obtain ⟨-, -, hduplicate⟩ := module_names_distinct (titledCatalog "2fa" "event 2fa") .default
  obtain ⟨-, hnames, -⟩ := module_names_distinct (titledCatalog "2fa" "sign-up (v2)") .default
  obtain ⟨named, -, -, hmodule, hnodup, -⟩ := hnames text htext
  exact ⟨herror, (hduplicate _ _ _ herror).2.2.2, text, named, htext, hmodule, hnodup⟩

end EventSchema
