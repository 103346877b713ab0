import EventSchema.Proofs.Histories

/-!
# Cycles of references

A document that refers to itself over any number of documents has no content. Resolution reports the
documents of such a cycle, and reports one only where there is one.

* `Library.IsCycle` — documents that refer to each other in turn, ending where they started;
* `isCycle_of_fails` — the trail of an expansion holds the cycle that is reported;
* `invalidExtends_of_fails` — without cycles, all that can fail in a library that loads is a base;
* `resolve_detects_cycles` — both at once, for a session with any history.
-/

namespace EventSchema

namespace Library

variable {lib : Library} {origin path q : DocumentPath} {trail cycle : List DocumentPath}
  {e : ComposeError} {t : Tree}

/-- Documents that refer to each other in turn. The last one is the first one again, and there is no
other repetition. -/
structure IsCycle (lib : Library) (cycle : List DocumentPath) : Prop where
  long : 2 ≤ cycle.length
  closed : cycle.head? = cycle.getLast?
  distinct : cycle.dropLast.Nodup
  linked : cycle.IsChain lib.Refers

/-- The part of a trail that starts with the document at its end is a cycle. -/
theorem isCycle_of_closing? (hdistinct : trail.Nodup)
    (hlinked : (trail ++ [path]).IsChain lib.Refers) (hc : closing? trail path = some cycle) :
    lib.IsCycle cycle := by
  obtain ⟨before, rest, rfl, rfl⟩ := closing?_eq_some hc
  rw [List.append_assoc] at hlinked
  refine ⟨by simp, ?_, ?_, hlinked.right_of_append⟩
  · rw [List.getLast?_concat]
    rfl
  · rw [List.dropLast_concat]
    exact (List.nodup_append.1 hdistinct).2.1

/-- A reported cycle is one, and the documents of the trail lead to it. -/
theorem isCycle_of_fails (hfails : lib.Fails trail path e) (he : e = .referenceCycle cycle)
    (hdistinct : trail.Nodup) (hlinked : (trail ++ [path]).IsChain lib.Refers)
    (hreach : ∀ q ∈ trail ++ [path], lib.Reaches origin q) :
    lib.IsCycle cycle ∧ ∃ first, cycle.head? = some first ∧ lib.Reaches origin first := by
  induction hfails with
  | cycle hc =>
    obtain rfl := ComposeError.referenceCycle.inj he
    refine ⟨isCycle_of_closing? hdistinct hlinked hc, ?_⟩
    obtain ⟨before, rest, rfl, rfl⟩ := closing?_eq_some hc
    exact ⟨_, rfl, hreach _ (by simp)⟩
  | parse hp hparse =>
    subst he
    rcases parse_eq_error hparse with ⟨-, h⟩ | ⟨-, ⟨_, h⟩ | ⟨_, h⟩⟩ <;> cases h
  | unresolved => cases he
  | inheritance => cases he
  | @reference trail path target e hp href ht hfails ih =>
    have hpath : lib.Reaches origin path := hreach path (by simp)
    -- the trail grows by the document, which is reached and was not on it
    refine ih he (distinct_append hdistinct hp) (linked_append hlinked href) fun q hq => ?_
    rcases List.mem_append.1 hq with hq | hq
    · exact hreach q hq
    · exact List.mem_singleton.1 hq ▸ hpath.tail href

/-- Where all documents load and none reaches itself, the only failure is a base that cannot be
inherited from. -/
theorem invalidExtends_of_fails (hfails : lib.Fails trail path e)
    (hlinked : (trail ++ [path]).IsChain lib.Refers) (hpath : lib.Reaches origin path)
    (hload : ∀ q, lib.Reaches origin q → ∃ raw, lib.parse q = .ok raw)
    (hacyclic : ∀ q, lib.Reaches origin q → ¬ lib.ReachesOver q q) :
    ∃ q fault, e = .invalidExtends q fault := by
  induction hfails with
  | cycle hc =>
    obtain ⟨before, rest, rfl, -⟩ := closing?_eq_some hc
    exact absurd (reachesOver_of_mem_trail hlinked (by simp)) (hacyclic _ hpath)
  | parse hp hparse =>
    obtain ⟨raw, hraw⟩ := hload _ hpath
    rw [hparse] at hraw
    cases hraw
  | unresolved hp href ht =>
    obtain ⟨raw, hraw⟩ := hload _ (hpath.tail href)
    rw [contains_of_parse hraw] at ht
    cases ht
  | inheritance hp fault => exact ⟨_, fault, rfl⟩
  | reference hp href _ _ ih => exact ih (linked_append hlinked href) (hpath.tail href)

/-- A document that reaches one on a cycle has no content. -/
theorem content_ne_ok_of_cycle (hq : lib.Reaches path q) (hcycle : lib.ReachesOver q q) :
    lib.content path ≠ .ok t := by
  intro h
  obtain ⟨u, hu⟩ := inlined_of_reaches (content_eq_ok_iff.1 h) hq
  rw [inlined_eq_none_of_cycle hcycle] at hu
  cases hu

/-- An error of a document of the library comes from a document that it reaches. -/
theorem fails_of_content (hp : lib.contains path = true) (h : lib.content path = .error e) :
    lib.Fails [] path e :=
  fails_of_expandWithin (IsTrail.start hp) h

end Library

open Library

/-- Cycles are found, and nothing else is taken for one. After every history of requests,
* a reported cycle is one, and the document leads to it;
* a document that reaches one on a cycle is never resolved;
* where all documents that it reaches load and none of them is on a cycle, a document is resolved,
  unless a base cannot be inherited from. -/
theorem resolve_detects_cycles (lib : Library) (requests : List Request) (path : DocumentPath) :
    (∀ cycle, (lib.resolve path (lib.after requests)).1 = .error (.referenceCycle cycle) →
      lib.IsCycle cycle ∧ ∃ first, cycle.head? = some first ∧ lib.Reaches path first) ∧
    ((∃ q, lib.Reaches path q ∧ lib.ReachesOver q q) →
      ∀ t, (lib.resolve path (lib.after requests)).1 ≠ .ok t) ∧
    ((∀ q, lib.Reaches path q → lib.contains q = true ∧ ∃ raw, lib.parse q = .ok raw) →
      (∀ q, lib.Reaches path q → ¬ lib.ReachesOver q q) →
      (∃ t, (lib.resolve path (lib.after requests)).1 = .ok t) ∨
        ∃ q fault,
          (lib.resolve path (lib.after requests)).1 = .error (.invalidExtends q fault)) := by
  rw [resolve_eq_content (after_atRest lib requests) path]
  refine ⟨fun cycle hcycle => ?_, fun ⟨q, hq, hcycle⟩ t => ?_, fun hload hacyclic => ?_⟩
  · have hp : lib.contains path = true := by
      cases hp : lib.contains path with
      | true => rfl
      | false =>
        rw [content_of_not_contains hp] at hcycle
        cases hcycle
    refine isCycle_of_fails (fails_of_content hp hcycle) rfl List.nodup_nil (.singleton path) ?_
    intro q hq
    exact List.mem_singleton.1 hq ▸ .refl
  · exact content_ne_ok_of_cycle hq hcycle
  · cases hcontent : lib.content path with
    | ok t => exact .inl ⟨t, rfl⟩
    | error e =>
      obtain ⟨q, fault, rfl⟩ := invalidExtends_of_fails
        (fails_of_content (hload path .refl).1 hcontent) (.singleton path) .refl
        (fun q hq => (hload q hq).2) hacyclic
      exact .inr ⟨q, fault, rfl⟩

/-! ## Two documents -/

/-- What a document refers to, once its direct references are known. -/
theorem refers_iff_of_directReferences {lib : Library} {p q : DocumentPath}
    {targets : List DocumentPath} (h : (lib.directReferences p []).1.toOption = some targets) :
    lib.Refers p q ↔ q ∈ targets := by
  rw [toOption_eq_some_iff] at h
  rw [Library.Refers]
  rw [h]
  constructor
  · rintro ⟨all, hall, hq⟩
    exact Except.ok.inj hall ▸ hq
  · exact fun hq => ⟨targets, rfl, hq⟩

namespace TwoDocuments

/-- The first of two documents. -/
def first : DocumentPath := ⟨["a.json".toList], by decide⟩

/-- The second of two documents. -/
def second : DocumentPath := ⟨["b.json".toList], by decide⟩

/-- The first document refers to the second, whose text is given. -/
def library (text : String) : Library :=
  .ofTexts [(first, "\x7b\"x\":\x7b\"$ref\":\"b.json\"\x7d\x7d"), (second, text)]

/-- Two documents that refer to each other. -/
def loop : Library := library "\x7b\"$ref\":\"a.json\"\x7d"

/-- Two documents, the second of which refers to nothing. -/
def line : Library := library "\x7b\"title\":\"B\"\x7d"

/-- Two documents that refer to each other are a cycle, which is found from both sides. There is
none where the second refers to nothing. -/
theorem resolve_detects_loop :
    loop.IsCycle [second, first, second] ∧
      (∀ t, (loop.resolve first (loop.after [.resolve second])).1 ≠ .ok t) ∧
      ((∃ t, (line.resolve first (line.after [.resolve second])).1 = .ok t) ∨
        ∃ q fault, (line.resolve first (line.after [.resolve second])).1 =
          .error (.invalidExtends q fault)) := by
  refine ⟨?_, ?_, ?_⟩
  · have hcycle : (match (loop.resolve second (loop.after [.resolve first])).1 with
        | .error (.referenceCycle cycle) => some cycle
        | _ => none) = some [second, first, second] := by decide +kernel
    refine ((resolve_detects_cycles loop [.resolve first] second).1 _ ?_).1
    split at hcycle
    · next h =>
      rw [h, Option.some.inj hcycle]
    · cases hcycle
  · have hthere : loop.Refers first second :=
      (refers_iff_of_directReferences (by decide +kernel)).2 (List.mem_singleton_self second)
    have hback : loop.Refers second first :=
      (refers_iff_of_directReferences (by decide +kernel)).2 (List.mem_singleton_self first)
    exact (resolve_detects_cycles loop [.resolve second] first).2.1
      ⟨first, .refl, .head hthere (.single hback)⟩
  · have hfirst : ∀ q, line.Refers first q ↔ q ∈ [second] := fun q =>
      refers_iff_of_directReferences (by decide +kernel)
    have hsecond : ∀ q, line.Refers second q ↔ q ∈ [] := fun q =>
      refers_iff_of_directReferences (by decide +kernel)
    have hreach : ∀ q, line.Reaches first q → q = first ∨ q = second := by
      intro q hq
      induction hq with
      | refl => exact .inl rfl
      | tail _ href ih =>
        rcases ih with rfl | rfl
        · exact .inr (List.mem_singleton.1 ((hfirst _).1 href))
        · cases (hsecond _).1 href
    have hparse : ∀ q, (line.parse q).isOk = true → ∃ raw, line.parse q = .ok raw := by
      intro q h
      cases hp : line.parse q with
      | ok raw => exact ⟨raw, rfl⟩
      | error e =>
        rw [hp] at h
        cases h
    refine (resolve_detects_cycles line [.resolve second] first).2.2 (fun q hq => ?_) ?_
    · rcases hreach q hq with rfl | rfl
      · exact ⟨by decide +kernel, hparse _ (by decide +kernel)⟩
      · exact ⟨by decide +kernel, hparse _ (by decide +kernel)⟩
    · intro q hq hqq
      -- every cycle would have to leave the second document
      obtain ⟨r, href, hr⟩ := Relation.TransGen.head'_iff.1 hqq
      rcases hreach q hq with rfl | rfl
      · obtain rfl := List.mem_singleton.1 ((hfirst r).1 href)
        rcases Relation.ReflTransGen.cases_head hr with h | ⟨r, href, -⟩
        · exact absurd h (by decide +kernel)
        · cases (hsecond r).1 href
      · cases (hsecond r).1 href

end TwoDocuments

end EventSchema
