import EventSchema.Proofs.Inlining
import Mathlib.Data.List.Chain
import Mathlib.Data.List.TakeWhile

/-!
# Expansion

Resolution without a memory: every document is expanded anew at each reference, and only the trail
of the documents in progress is kept, so that cycles end it.

* `Library.expandWithin`, `content` — expansion on a trail, and from scratch;
* `IsTrail` — what the trail of a run always is: enumerated documents, pairwise different, each one
  referred to by the one before it, with room for all documents that are not on it;
* `inlined_of_expandWithin`, `expandWithin_of_inlined` — on a trail, expansion succeeds exactly
  where inlining does, and with the same tree;
* `Fails`, `fails_of_expandWithin` — where an error of an expansion comes from.
-/

namespace EventSchema

/-- The cycle that a document closes on a trail. -/
def closing? (trail : List DocumentPath) (path : DocumentPath) : Option (List DocumentPath) :=
  match trail.dropWhile (· != path) with
  | [] => none
  | cycle => some (cycle ++ [path])

/-- A document closes a cycle if the trail ends in a part that starts with it. -/
theorem closing?_eq_some {trail cycle : List DocumentPath} {path : DocumentPath}
    (h : closing? trail path = some cycle) :
    ∃ before rest, trail = before ++ path :: rest ∧ cycle = path :: rest ++ [path] := by
  rw [closing?] at h
  have htrail := List.takeWhile_append_dropWhile (p := (· != path)) (l := trail)
  cases hdrop : trail.dropWhile (· != path) with
  | nil => simp [hdrop] at h
  | cons first rest =>
    have hfirst : first = path := by
      have := List.head?_dropWhile_not (· != path) trail
      simpa [hdrop] using this
    subst hfirst
    simp only [hdrop, Option.some.injEq] at h
    exact ⟨_, rest, by rw [← hdrop, htrail], h.symm⟩

/-- A document closes a cycle exactly if it is on the trail. -/
theorem closing?_eq_none_iff {trail : List DocumentPath} {path : DocumentPath} :
    closing? trail path = none ↔ path ∉ trail := by
  cases h : closing? trail path with
  | some cycle =>
    obtain ⟨before, rest, rfl, -⟩ := closing?_eq_some h
    simp
  | none =>
    rw [closing?] at h
    cases hdrop : trail.dropWhile (· != path) with
    | cons first rest => simp [hdrop] at h
    | nil =>
      have hall := List.dropWhile_eq_nil_iff.1 hdrop
      simp only [true_iff]
      intro hmem
      simpa using hall path hmem

namespace Library

variable {lib : Library} {p q target : DocumentPath} {t u : Tree} {room n : Nat}
  {trail targets : List DocumentPath} {e : ComposeError}

/-! ## Definitions -/

/-- The contents of some targets in turn, the same target anew each time. -/
def expandTargets (lib : Library) (expand : DocumentPath → Except ComposeError Tree)
    (referrer : DocumentPath) :
    List DocumentPath → Except ComposeError (List (DocumentPath × Tree))
  | [] => .ok []
  | target :: rest =>
    if lib.contains target then do
      let content ← expand target
      return (target, content) :: (← lib.expandTargets expand referrer rest)
    else .error (.unresolvedReference referrer target)

/-- The content of a document, once there is a way to expand its targets. -/
def expandWith (lib : Library) (expand : DocumentPath → Except ComposeError Tree)
    (path : DocumentPath) : Except ComposeError Tree := do
  let raw ← lib.parse path
  let targets ← referencedPaths path (located path raw)
  assemble path (located path raw) (← lib.expandTargets expand path targets)

/-- The content of a document on a trail, while so many more documents may be in progress. -/
def expandWithin (lib : Library) : Nat → List DocumentPath → DocumentPath → Except ComposeError Tree
  | room, trail, path =>
    match closing? trail path with
    | some cycle => .error (.referenceCycle cycle)
    | none =>
      match room with
      | 0 => .error (.notEnumerated path)
      | room + 1 => lib.expandWith (lib.expandWithin room (trail ++ [path])) path

/-- The content of a document. -/
def content (lib : Library) (path : DocumentPath) : Except ComposeError Tree :=
  lib.expandWithin lib.documents.length [] path

/-- A trail, and the document that is reached at its end. -/
structure IsTrail (lib : Library) (room : Nat) (trail : List DocumentPath) (path : DocumentPath) :
    Prop where
  enumerated : ∀ q ∈ trail ++ [path], lib.contains q = true
  distinct : trail.Nodup
  linked : (trail ++ [path]).IsChain lib.Refers
  /-- there is room for all documents that are not on the trail -/
  roomy : lib.documents.length ≤ room + trail.length

/-! ## Trails -/

/-- The documents of a library, as a list. -/
theorem contains_iff : lib.contains p = true ↔ p ∈ lib.documents := by
  simp [contains]

/-- A run starts with an empty trail. -/
theorem IsTrail.start (hp : lib.contains p = true) :
    lib.IsTrail lib.documents.length [] p :=
  ⟨by simpa using hp, List.nodup_nil, .singleton p, by simp⟩

/-- A document that is not on the trail can go onto it. -/
theorem distinct_append (hdistinct : trail.Nodup) (hp : p ∉ trail) : (trail ++ [p]).Nodup := by
  refine List.nodup_append.2 ⟨hdistinct, by simp, fun a ha b hb => ?_⟩
  rintro rfl
  exact hp (List.mem_singleton.1 hb ▸ ha)

/-- A reference of the document at the end makes the trail longer. -/
theorem linked_append (hlinked : (trail ++ [p]).IsChain lib.Refers) (href : lib.Refers p target) :
    (trail ++ [p] ++ [target]).IsChain lib.Refers := by
  refine hlinked.append (.singleton target) fun a ha b hb => ?_
  rw [List.getLast?_concat] at ha
  obtain rfl := Option.some.inj ha
  obtain rfl := Option.some.inj hb
  exact href

/-- Where a document is not on the trail, there is room for one more. -/
theorem IsTrail.exists_room (h : lib.IsTrail room trail p) (hp : p ∉ trail) :
    ∃ k, room = k + 1 := by
  have hsub : trail ++ [p] ⊆ lib.documents := fun q hq => contains_iff.1 (h.enumerated q hq)
  have hlen := (distinct_append h.distinct hp).length_le_of_subset hsub
  have hroomy := h.roomy
  rw [List.length_append, List.length_singleton] at hlen
  exact ⟨room - 1, by omega⟩

/-- The document at the end goes onto the trail when one of its references is followed. -/
theorem IsTrail.follow (h : lib.IsTrail (room + 1) trail p) (hp : p ∉ trail)
    (href : lib.Refers p target) (ht : lib.contains target = true) :
    lib.IsTrail room (trail ++ [p]) target := by
  refine ⟨fun q hq => ?_, distinct_append h.distinct hp, linked_append h.linked href, ?_⟩
  · rcases List.mem_append.1 hq with hq | hq
    · exact h.enumerated q hq
    · exact List.mem_singleton.1 hq ▸ ht
  · have hroomy := h.roomy
    rw [List.length_append, List.length_singleton]
    omega

/-- Every document on a linked trail refers to the one at its end over some others. -/
theorem reachesOver_of_mem_trail (hlinked : (trail ++ [p]).IsChain lib.Refers) (hq : q ∈ trail) :
    lib.ReachesOver q p := by
  obtain ⟨before, rest, rfl⟩ := List.append_of_mem hq
  rw [List.append_assoc, List.cons_append] at hlinked
  have htail : (q :: (rest ++ [p])).IsChain lib.Refers := hlinked.right_of_append
  clear hlinked hq
  induction rest generalizing q with
  | nil => exact .single (List.isChain_cons_cons.1 htail).1
  | cons r rest ih =>
    obtain ⟨hqr, hrest⟩ := List.isChain_cons_cons.1 htail
    exact .head hqr (ih hrest)

/-! ## Contents of targets -/

/-- The targets of a document have contents if each is enumerated and expands. -/
theorem expandTargets_eq_ok {expand : DocumentPath → Except ComposeError Tree}
    (h : ∀ target ∈ targets, lib.contains target = true ∧ ∃ u, expand target = .ok u) :
    ∃ contents, lib.expandTargets expand p targets = .ok contents := by
  induction targets with
  | nil => exact ⟨[], rfl⟩
  | cons target rest ih =>
    obtain ⟨hin, u, hu⟩ := h target List.mem_cons_self
    obtain ⟨contents, hrest⟩ := ih fun q hq => h q (List.mem_cons_of_mem _ hq)
    refine ⟨(target, u) :: contents, ?_⟩
    simp only [expandTargets, hin, if_true, hu, hrest]
    rfl

/-- The contents of targets are those of the targets one by one. -/
theorem contents_of_expandTargets {expand : DocumentPath → Except ComposeError Tree}
    {contents : List (DocumentPath × Tree)}
    (h : lib.expandTargets expand p targets = .ok contents) :
    contents.map (·.1) = targets ∧
      ∀ e ∈ contents, lib.contains e.1 = true ∧ expand e.1 = .ok e.2 := by
  induction targets generalizing contents with
  | nil =>
    obtain rfl := Except.ok.inj h
    exact ⟨rfl, by simp⟩
  | cons target rest ih =>
    cases hin : lib.contains target with
    | false => simp [expandTargets, hin] at h
    | true =>
      cases hu : expand target with
      | error e => simp [expandTargets, hin, hu, bind, Except.bind] at h
      | ok u =>
        cases hrest : lib.expandTargets expand p rest with
        | error e => simp [expandTargets, hin, hu, hrest, bind, Except.bind] at h
        | ok more =>
          simp only [expandTargets, hin, if_true, hu, hrest, bind, Except.bind, pure, Except.pure,
            Except.ok.injEq] at h
          obtain ⟨hmap, hall⟩ := ih hrest
          subst h
          refine ⟨by rw [List.map_cons, hmap], fun e he => ?_⟩
          rcases List.mem_cons.1 he with rfl | he
          · exact ⟨hin, hu⟩
          · exact hall e he

/-- The first target without a content is the one that fails. -/
theorem expandTargets_eq_error {expand : DocumentPath → Except ComposeError Tree}
    (h : lib.expandTargets expand p targets = .error e) :
    ∃ target ∈ targets,
      (lib.contains target = false ∧ e = .unresolvedReference p target) ∨
        (lib.contains target = true ∧ expand target = .error e) := by
  induction targets with
  | nil => cases h
  | cons target rest ih =>
    cases hin : lib.contains target with
    | false =>
      simp only [expandTargets, hin, Bool.false_eq_true, if_false, Except.error.injEq] at h
      exact ⟨target, List.mem_cons_self, .inl ⟨hin, h.symm⟩⟩
    | true =>
      cases hu : expand target with
      | error e' =>
        simp only [expandTargets, hin, if_true, hu, bind, Except.bind, Except.error.injEq] at h
        exact ⟨target, List.mem_cons_self, .inr ⟨hin, h ▸ hu⟩⟩
      | ok u =>
        cases hrest : lib.expandTargets expand p rest with
        | ok more => simp [expandTargets, hin, hu, hrest, bind, Except.bind, pure, Except.pure] at h
        | error e' =>
          simp only [expandTargets, hin, if_true, hu, hrest, bind, Except.bind,
            Except.error.injEq] at h
          obtain ⟨q, hq, hcase⟩ := ih (h ▸ hrest)
          exact ⟨q, List.mem_cons_of_mem _ hq, hcase⟩

/-- Where the contents of all targets are inlined ones, substitution finds them under the texts of
the targets. -/
theorem contentAt?_eq_inlinedAt {contents : List (DocumentPath × Tree)}
    (hall : ∀ e ∈ contents, lib.inlined n e.1 = some e.2) (hq : q ∈ contents.map (·.1)) :
    contentAt? contents q.text = lib.inlinedAt n q.text := by
  rw [inlinedAt_text]
  induction contents with
  | nil => cases hq
  | cons e rest ih =>
    have hrest := fun d hd => hall d (List.mem_cons_of_mem _ hd)
    by_cases he : e.1.text = q.text
    · have hpath : e.1 = q := DocumentPath.text_injective he
      rw [← hpath, hall e List.mem_cons_self]
      simp [contentAt?]
    · have hne : q ≠ e.1 := fun h => he (h ▸ rfl)
      have hmem : q ∈ rest.map (·.1) := by simpa [hne] using hq
      simpa [contentAt?, he] using ih hrest hmem

/-- A document is assembled if the tree with its markers replaced can inherit from its bases. -/
theorem assemble_eq_ok_iff {tree : Tree} {contents : List (DocumentPath × Tree)} :
    assemble p tree contents = .ok t ↔ (tree.substitute (contentAt? contents)).inherit = .ok t := by
  rw [assemble, mapError_eq_ok_iff]

/-- Assembling from inlined contents is one level of inlining. -/
theorem assemble_inlined {raw : Tree} {contents : List (DocumentPath × Tree)}
    (ht : referencedPaths p (located p raw) = .ok targets) (hmap : contents.map (·.1) = targets)
    (hall : ∀ e ∈ contents, lib.inlined n e.1 = some e.2) :
    assemble p (located p raw) contents = .ok t ↔
      ((located p raw).substitute (lib.inlinedAt n)).inherit = .ok t := by
  have hcongr : (located p raw).substitute (contentAt? contents) =
      (located p raw).substitute (lib.inlinedAt n) := by
    refine Tree.substitute_congr _ fun r hr => ?_
    obtain ⟨q, -, rfl⟩ := ofText_of_mem_targets hr
    exact contentAt?_eq_inlinedAt hall (hmap ▸ (mem_referencedPaths ht).2 hr)
  rw [assemble_eq_ok_iff, hcongr]

/-! ## Expansion and inlining -/

/-- Expansion of a document that is not on the trail. -/
theorem expandWithin_succ (hp : p ∉ trail) :
    lib.expandWithin (room + 1) trail p =
      lib.expandWith (lib.expandWithin room (trail ++ [p])) p := by
  rw [expandWithin, closing?_eq_none_iff.2 hp]

/-- Expansion of a document that is on the trail. -/
theorem expandWithin_of_closing? {cycle : List DocumentPath}
    (h : closing? trail p = some cycle) :
    lib.expandWithin room trail p = .error (.referenceCycle cycle) := by
  unfold expandWithin
  simp only [h]

/-- Expansion of one document, from the document itself to the contents of its targets. -/
theorem expandWith_eq {expand : DocumentPath → Except ComposeError Tree} {raw : Tree}
    (hraw : lib.parse p = .ok raw) (ht : referencedPaths p (located p raw) = .ok targets) :
    lib.expandWith expand p =
      (lib.expandTargets expand p targets).bind (assemble p (located p raw)) := by
  simp only [expandWith, hraw, bind, Except.bind, ht]

/-- What expands is what is inlined. -/
theorem inlined_of_expandWithin (h : lib.expandWithin room trail p = .ok t) :
    lib.inlined room p = some t := by
  induction room generalizing trail p t with
  | zero =>
    rw [expandWithin] at h
    cases hc : closing? trail p <;> simp [hc] at h
  | succ room ih =>
    have hp : p ∉ trail := by
      intro hmem
      cases hc : closing? trail p with
      | none => exact closing?_eq_none_iff.1 hc hmem
      | some cycle =>
        rw [expandWithin_of_closing? hc] at h
        cases h
    rw [expandWithin_succ hp] at h
    cases hraw : lib.parse p with
    | error e => simp [expandWith, hraw, bind, Except.bind] at h
    | ok raw =>
      obtain ⟨targets, ht, -⟩ := referencedPaths_located p raw
      rw [expandWith_eq hraw ht] at h
      cases hc : lib.expandTargets (lib.expandWithin room (trail ++ [p])) p targets with
      | error e => simp [hc, Except.bind] at h
      | ok contents =>
        obtain ⟨hmap, hall⟩ := contents_of_expandTargets hc
        have hinl : ∀ e ∈ contents, lib.inlined room e.1 = some e.2 := fun e he => ih (hall e he).2
        simp only [hc, Except.bind] at h
        refine inlined_succ_eq_some_iff.2
          ⟨raw, hraw, fun r hr => ?_, (assemble_inlined ht hmap hinl).1 h⟩
        obtain ⟨q, -, rfl⟩ := ofText_of_mem_targets hr
        have hq : q ∈ contents.map (·.1) := hmap ▸ (mem_referencedPaths ht).2 hr
        obtain ⟨e, he, rfl⟩ := List.mem_map.1 hq
        exact ⟨e.2, by rw [inlinedAt_text, hinl e he]⟩

/-- What can be inlined expands on every trail. -/
theorem expandWithin_of_inlined (htrail : lib.IsTrail room trail p)
    (h : lib.inlined n p = some t) : lib.expandWithin room trail p = .ok t := by
  induction n generalizing room trail p t with
  | zero => cases h
  | succ n ih =>
    -- a document on its own trail would be on a cycle, and have no content
    have hp : p ∉ trail := by
      intro hmem
      rw [inlined_eq_none_of_cycle (reachesOver_of_mem_trail htrail.linked hmem)] at h
      cases h
    obtain ⟨room, rfl⟩ := htrail.exists_room hp
    obtain ⟨raw, hraw, hsome, ht⟩ := inlined_succ_eq_some_iff.1 h
    obtain ⟨targets, htargets, -⟩ := referencedPaths_located p raw
    have htarget : ∀ q ∈ targets, lib.contains q = true ∧
        ∃ u, lib.expandWithin room (trail ++ [p]) q = .ok u := by
      intro q hq
      have hmem := (mem_referencedPaths htargets).1 hq
      obtain ⟨u, hu⟩ := hsome _ hmem
      rw [inlinedAt_text] at hu
      have hin := contains_of_inlined hu
      exact ⟨hin, u, ih (htrail.follow hp (refers_iff.2 ⟨raw, hraw, hmem⟩) hin) hu⟩
    obtain ⟨contents, hc⟩ := expandTargets_eq_ok (p := p) htarget
    obtain ⟨hmap, hall⟩ := contents_of_expandTargets hc
    -- expansion has its own number of levels; the contents are the same
    have hinl : ∀ e ∈ contents, lib.inlined n e.1 = some e.2 := by
      intro e he
      have hmem := (mem_referencedPaths htargets).1 (hmap ▸ List.mem_map_of_mem he)
      obtain ⟨u, hu⟩ := hsome _ hmem
      rw [inlinedAt_text] at hu
      rw [hu, inlined_unique hu (inlined_of_expandWithin (hall e he).2)]
    rw [expandWithin_succ hp, expandWith_eq hraw htargets, hc]
    exact (assemble_inlined htargets hmap hinl).2 ht

/-- A document outside the library has no content. -/
theorem content_of_not_contains (hp : lib.contains p = false) :
    lib.content p = .error (.notEnumerated p) := by
  rw [content]
  cases lib.documents.length with
  | zero => rfl
  | succ k =>
    rw [expandWithin_succ List.not_mem_nil]
    simp [expandWith, parse, hp, bind, Except.bind]

/-- A document has a content exactly if inlining ends, and inlining needs no more levels than there
are documents. -/
theorem content_eq_ok_iff :
    lib.content p = .ok t ↔ lib.inlined lib.documents.length p = some t := by
  constructor
  · exact inlined_of_expandWithin
  · intro h
    exact expandWithin_of_inlined (IsTrail.start (contains_of_inlined h)) h

/-- The number of levels does not matter, as long as inlining ends. -/
theorem content_of_inlined (h : lib.inlined n p = some t) : lib.content p = .ok t :=
  expandWithin_of_inlined (IsTrail.start (contains_of_inlined h)) h

/-- What has a content is inlined, and that takes a level. -/
theorem exists_inlined_succ (h : lib.content p = .ok t) : ∃ n, lib.inlined (n + 1) p = some t := by
  have hinlined := content_eq_ok_iff.1 h
  obtain ⟨n, hn⟩ := exists_succ_of_inlined hinlined
  exact ⟨n, hn ▸ hinlined⟩

/-! ## Errors -/

/-- Where an error of a document on a trail comes from: the document closes a cycle, cannot be
parsed, refers to a document outside the library, has a base that cannot be inherited from, or
refers to a document that fails. -/
inductive Fails (lib : Library) : List DocumentPath → DocumentPath → ComposeError → Prop
  | cycle {trail cycle : List DocumentPath} {path : DocumentPath}
      (hc : closing? trail path = some cycle) : Fails lib trail path (.referenceCycle cycle)
  | parse {trail : List DocumentPath} {path : DocumentPath} {e : ComposeError}
      (hp : path ∉ trail) (he : lib.parse path = .error e) : Fails lib trail path e
  | unresolved {trail : List DocumentPath} {path target : DocumentPath} (hp : path ∉ trail)
      (href : lib.Refers path target) (ht : lib.contains target = false) :
      Fails lib trail path (.unresolvedReference path target)
  | inheritance {trail : List DocumentPath} {path : DocumentPath} (hp : path ∉ trail)
      (fault : BaseFault) : Fails lib trail path (.invalidExtends path fault)
  | reference {trail : List DocumentPath} {path target : DocumentPath} {e : ComposeError}
      (hp : path ∉ trail) (href : lib.Refers path target) (ht : lib.contains target = true)
      (he : Fails lib (trail ++ [path]) target e) : Fails lib trail path e

/-- Assembling a document fails only because of a base. -/
theorem invalidExtends_of_assemble {tree : Tree} {contents : List (DocumentPath × Tree)}
    (h : assemble p tree contents = .error e) : ∃ fault, e = .invalidExtends p fault := by
  rw [assemble] at h
  cases hi : (tree.substitute (contentAt? contents)).inherit with
  | ok t => simp [hi, Except.mapError] at h
  | error fault =>
    simp only [hi, Except.mapError, Except.error.injEq] at h
    exact ⟨fault, h.symm⟩

/-- Every error of an expansion comes from one of the documents that the trail leads to. -/
theorem fails_of_expandWithin (htrail : lib.IsTrail room trail p)
    (h : lib.expandWithin room trail p = .error e) : lib.Fails trail p e := by
  induction room generalizing trail p with
  | zero =>
    cases hc : closing? trail p with
    | none =>
      obtain ⟨k, hk⟩ := htrail.exists_room (closing?_eq_none_iff.1 hc)
      cases hk
    | some cycle =>
      rw [expandWithin_of_closing? hc] at h
      exact Except.error.inj h ▸ .cycle hc
  | succ room ih =>
    cases hc : closing? trail p with
    | some cycle =>
      rw [expandWithin_of_closing? hc] at h
      exact Except.error.inj h ▸ .cycle hc
    | none =>
      have hp := closing?_eq_none_iff.1 hc
      rw [expandWithin_succ hp] at h
      cases hraw : lib.parse p with
      | error e' =>
        simp only [expandWith, hraw, bind, Except.bind, Except.error.injEq] at h
        exact .parse hp (h ▸ hraw)
      | ok raw =>
        obtain ⟨targets, ht, -⟩ := referencedPaths_located p raw
        rw [expandWith_eq hraw ht] at h
        cases hcs : lib.expandTargets (lib.expandWithin room (trail ++ [p])) p targets with
        | ok contents =>
          simp only [hcs, Except.bind] at h
          obtain ⟨fault, rfl⟩ := invalidExtends_of_assemble h
          exact .inheritance hp fault
        | error e' =>
          simp only [hcs, Except.bind, Except.error.injEq] at h
          subst h
          obtain ⟨target, hmem, hcase⟩ := expandTargets_eq_error hcs
          have href : lib.Refers p target :=
            refers_iff.2 ⟨raw, hraw, (mem_referencedPaths ht).1 hmem⟩
          rcases hcase with ⟨hin, rfl⟩ | ⟨hin, he⟩
          · exact .unresolved hp href hin
          · exact .reference hp href hin (ih (htrail.follow hp href hin) he)

/-- Parsing fails in one of three ways, each naming the document. -/
theorem parse_eq_error (h : lib.parse p = .error e) :
    (lib.contains p = false ∧ e = .notEnumerated p) ∨
      (lib.contains p = true ∧
        ((∃ reason, e = .unreadable p reason) ∨ ∃ cause, e = .malformed p cause)) := by
  rw [parse] at h
  split at h
  · next hp =>
    refine .inr ⟨hp, ?_⟩
    cases hs : lib.source p with
    | error reason =>
      simp only [hs, Except.error.injEq] at h
      exact .inl ⟨reason, h.symm⟩
    | ok text =>
      simp only [hs] at h
      cases hm : Markup.parse (format p) text with
      | ok t => simp [hm, Except.mapError] at h
      | error cause =>
        simp only [hm, Except.mapError, Except.error.injEq] at h
        exact .inr ⟨cause, h.symm⟩
  · next hp => exact .inl ⟨by simpa using hp, (Except.error.inj h).symm⟩

end Library

end EventSchema
