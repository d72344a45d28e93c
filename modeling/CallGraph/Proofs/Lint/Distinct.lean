import CallGraph.Proofs.Lint.Position
import CallGraph.Proofs.Unit.Distinct

/-!
# Findings of a unit and of its payloads

What is found about a unit itself is distinct, and it lies apart from what is found in its payloads.

* `nodup_unitFindings`, `nodup_unitFindings_ofText` — the findings of a unit itself are distinct;
* `payloadPart_inside` — those of a payload lie inside a token of its edge;
* `not_mem_payloadPart_of_mem_unitFindings`, `disjoint_payloadParts` — so they are apart from those of
  the unit and from those of other payloads.
-/

namespace CallGraph

/-! ### Findings of a unit -/

section

variable {g : Graph} {d : Diagnostic}

theorem Graph.Circle.target_eq {root : String} {path : List String} {e : Edge}
    (h : g.Circle root path) (hends : [e.source, e.target] <:+ path) : e.target = root := by
  obtain ⟨interior, rfl, -⟩ := h.shape
  obtain ⟨front, hfront⟩ := hends
  have hlast := congrArg List.getLast? hfront
  rw [List.append_cons, List.getLast?_concat, List.getLast?_concat] at hlast
  exact Option.some.inj hlast

/-- Each cycle is closed by an edge of its own. -/
theorem nodup_cycleFindings (h : g.WellFormed)
    (hspans : ∀ e ∈ g.edges, ∀ f ∈ g.edges, e.span = f.span → e = f) : (cycleFindings g).Nodup := by
  obtain ⟨circle, hcycles, hcircles⟩ := h.cycles_eq
  unfold cycleFindings
  rw [hcycles, List.map_map]
  refine List.Nodup.map_on ?_ (g.adjacency.pairwise_roots.imp Nat.ne_of_lt)
  intro i hi j hj heq
  obtain ⟨hlt, -, hcircle⟩ := hcircles i hi
  obtain ⟨hlt', -, hcircle'⟩ := hcircles j hj
  obtain ⟨e, he, hclosing, hends⟩ := hcircle.closing
  obtain ⟨f, hf, hclosing', hends'⟩ := hcircle'.closing
  have hspan := congrArg Diagnostic.span? heq
  simp only [Function.comp_apply, hclosing, hclosing'] at hspan
  -- The edge leads to the root of the cycle.
  obtain rfl := hspans e he f hf (Option.some.inj hspan)
  have hroot := (hcircle.target_eq hends).symm.trans (hcircle'.target_eq hends')
  rw [← h.position_nameAt hlt, hroot, h.position_nameAt hlt']

theorem nodup_checkSettings
    (hspans : g.settings.entries.Pairwise fun p q => p.2.span ≠ q.2.span) :
    (checkSettings g).Nodup := by
  refine hspans.filterMap _ fun p q hne d hd d' hd' heq => hne ?_
  have hplaced : ∀ {key : String} {v : Located Value} {d : Diagnostic},
      checkSetting key v = some d → d.span? = some v.span := by
    intro key v d h
    rcases checkSetting_cases h with rfl | ⟨expected, help, rfl⟩ <;> rfl
  have hspan := hplaced hd
  rw [heq, hplaced hd'] at hspan
  exact (Option.some.inj hspan).symm

theorem nodup_checkAddress (required : Bool) (n : Node) : (checkAddress required n).Nodup := by
  unfold checkAddress
  generalize (n.attribute? "port").filter _ = port
  generalize (n.attribute? "hostname").filter _ = hostname
  cases port <;> cases hostname <;> split <;> simp [invalidAttribute, missingAddress]

theorem span?_checkAddress {required : Bool} {n : Node} (hd : d ∈ checkAddress required n) :
    d.span? = some n.span := by
  rcases mem_checkAddress hd with ⟨v, rfl⟩ | ⟨v, rfl⟩ | rfl <;> rfl

theorem nodup_topFindings (c : Configuration)
    (hspans : g.nodes.Pairwise fun n n' => n.span ≠ n'.span) : (topFindings c g).Nodup := by
  have haddresses : (checkAddresses c.requireAddress g).Nodup := by
    refine List.pairwise_flatMap.2 ⟨fun n _ => nodup_checkAddress _ n, hspans.imp ?_⟩
    intro n n' hne d hd d' hd' heq
    have hspan := span?_checkAddress hd
    rw [heq, span?_checkAddress hd'] at hspan
    exact hne (Option.some.inj hspan).symm
  have hunused : (g.untouched.map unusedNode).Nodup := by
    refine List.pairwise_map.2 ((hspans.sublist List.filter_sublist).imp fun hne heq => hne ?_)
    exact Option.some.inj (congrArg Diagnostic.span? heq)
  refine List.nodup_append.2 ⟨haddresses, ?_, ?_⟩
  · split
    · exact hunused
    · exact List.nodup_nil
  · rintro d hd _ hd' rfl
    split at hd'
    · obtain ⟨n, -, rfl⟩ := List.mem_map.1 hd'
      obtain ⟨n', -, hd⟩ := List.mem_flatMap.1 hd
      rcases mem_checkAddress hd with ⟨v, heq⟩ | ⟨v, heq⟩ | heq <;>
        cases congrArg Diagnostic.code heq
    · exact List.not_mem_nil hd'

/-- Findings that come from a phase of their own are apart from those before them. -/
theorem nodup_append_of_phase {ds others : List Diagnostic} (h : ds.Nodup) (h' : others.Nodup)
    {phase : Phase} (hothers : ∀ d ∈ others, d.phase? = some phase)
    (hphase : ∀ d ∈ ds, d.phase? ≠ some phase) : (ds ++ others).Nodup := by
  refine List.nodup_append.2 ⟨h, h', ?_⟩
  rintro d hd _ hd' rfl
  exact hphase d hd (hothers d hd')

/-- **The findings of a unit** are distinct if those of every phase are. -/
theorem nodup_unitFindings {c : Configuration} {top : Bool} {u : SourceUnit}
    (h : u.graph.WellFormed) (hbefore : u.diagnostics.Nodup)
    (hphase : ∀ d ∈ u.diagnostics, d.phase? = some .reading ∨ d.phase? = some .building)
    (hcycles : (cycleFindings u.graph).Nodup) (hsettings : (checkSettings u.graph).Nodup)
    (htop : top = true → (topFindings c u.graph).Nodup) : (unitFindings c top u).Nodup := by
  have hearly : ∀ phase, phase ≠ .reading → phase ≠ .building →
      ∀ d ∈ u.diagnostics, d.phase? ≠ some phase := by
    intro phase hreading hbuilding d hd heq
    rcases hphase d hd with hd | hd <;> rw [hd] at heq
    · exact hreading (Option.some.inj heq).symm
    · exact hbuilding (Option.some.inj heq).symm
  have hcyclesPhase : ∀ phase, phase ≠ .cycles → ∀ d ∈ cycleFindings u.graph,
      d.phase? ≠ some phase := by
    intro phase hne d hd heq
    rw [phase_cycleFindings h hd] at heq
    exact hne (Option.some.inj heq).symm
  have hsettingsPhase : ∀ d ∈ checkSettings u.graph, d.phase? ≠ some .nodes := by
    intro d hd heq
    rw [phase_checkSettings hd] at heq
    cases heq
  have hothers : (u.diagnostics ++ cycleFindings u.graph ++ checkSettings u.graph).Nodup := by
    refine nodup_append_of_phase (nodup_append_of_phase hbefore hcycles
      (fun d hd => phase_cycleFindings h hd) (hearly _ (by decide) (by decide))) hsettings
      (fun d hd => phase_checkSettings hd) ?_
    exact List.forall_mem_append.2 ⟨hearly _ (by decide) (by decide), hcyclesPhase _ (by decide)⟩
  rw [unitFindings_eq c top h]
  cases top with
  | false => simpa using hothers
  | true =>
    refine nodup_append_of_phase hothers (htop rfl) (fun d hd => phase_topFindings hd) ?_
    exact List.forall_mem_append.2 ⟨List.forall_mem_append.2
      ⟨hearly _ (by decide) (by decide), hcyclesPhase _ (by decide)⟩, hsettingsPhase⟩

end

/-! ### Units that are read -/

section

variable {c : Configuration} {depth : Nat} {scope : Scope} {text : String} {draft : Draft}
  {d : Diagnostic} {e f : Edge}

theorem edges_apart_ofText (h : Draft.ofText c.budget scope text = (draft, .ok ()))
    (he : e ∈ draft.graph.edges) (hf : f ∈ draft.graph.edges) :
    e = f ∨ e.span.stop ≤ f.span.start ∨ f.span.stop ≤ e.span.start := by
  rw [Draft.eq_ofEvents c.budget scope text h] at he hf
  exact (laid_parse c.budget scope.start text).edges_apart he hf

theorem nodup_unitFindings_ofText (h : Draft.ofText c.budget scope text = (draft, .ok ()))
    (htop : depth = 0 → scope.seeds = []) :
    (unitFindings c (depth = 0) draft.toUnit).Nodup := by
  obtain ⟨hwell, hlaid⟩ := laidOver_ofText h
  have hlaidEvents := laid_parse c.budget scope.start text
  have hbefore : (Draft.ofText c.budget scope text).1.diagnostics.Nodup := nodup_ofText _ _ _
  have hphase : ∀ d ∈ (Draft.ofText c.budget scope text).1.diagnostics,
      d.phase? = some .reading ∨ d.phase? = some .building :=
    fun d hd => phase_ofText c.budget scope text hd
  rw [h] at hbefore hphase
  refine nodup_unitFindings hwell hbefore hphase (nodup_cycleFindings hwell ?_) ?_ fun hdepth => ?_
  · intro e he f hf hspan
    have hlt := (hlaid.edges e he).start_lt_stop
    rcases edges_apart_ofText h he hf with heq | hle | hle
    · exact heq
    · rw [← hspan] at hle
      omega
    · rw [← hspan] at hle
      omega
  · refine nodup_checkSettings ?_
    rw [show draft.toUnit.graph = _ from congrArg Draft.graph (Draft.eq_ofEvents _ _ _ h)]
    exact hlaidEvents.pairwise_settings
  · refine nodup_topFindings c ?_
    have hseeds := htop (of_decide_eq_true hdepth)
    have hnodes := hlaidEvents.pairwise_nodes hseeds
    rw [← Draft.eq_ofEvents _ _ _ h] at hnodes
    refine hnodes.imp_of_mem fun {n n'} hn _ hle hspan => ?_
    have hanchored := (hlaid.nodes n hn).resolve_left fun hseed => by
      rw [hseeds] at hseed
      exact List.not_mem_nil hseed
    have hlt := hanchored.start_lt_stop
    rw [← hspan] at hle
    omega

/-- What a payload adds lies inside a token of its edge. -/
theorem payloadPart_inside (h : Draft.ofText c.budget scope text = (draft, .ok ()))
    (he : e ∈ draft.graph.edges) (hd : d ∈ payloadPart c depth draft.graph e) :
    ∃ token ∈ (Scanner.startingAt scope.start text).tokens.1, ∃ s, d.span? = some s ∧
      token.span.start < s.start ∧ s.start < token.span.stop ∧
      e.span.start ≤ token.span.start ∧ token.span.stop ≤ e.span.stop := by
  have hlaid := (laidOver_ofText h).2
  obtain ⟨payload, hpayload⟩ := exists_payload hd
  obtain ⟨token, htoken, hsends, hfirst, hlast⟩ := hlaid.payloads e he payload hpayload
  obtain ⟨before, behind, -, hspan, hstart, hstop⟩ :=
    (Scanner.startingAt scope.start text).layout.piece htoken hsends
  obtain ⟨s, hs, hwithin⟩ := (pointsTo_payloadPart c depth hpayload (by rw [hspan]; rfl) d hd).placed
  obtain ⟨hlower, hupper⟩ := hwithin.bounds
  have hends : payload.span.stop = payload.span.location.offset + byteLength payload.value.toList := by
    rw [hspan]
    rfl
  have hbegins : payload.span.start = payload.span.location.offset := rfl
  have hle := s.start_le_stop
  exact ⟨token, htoken, s, hs, by omega, by omega, hfirst, hlast⟩

/-- **Nothing that is found about a unit** itself is found in one of its payloads. -/
theorem not_mem_payloadPart_of_mem_unitFindings
    (h : Draft.ofText c.budget scope text = (draft, .ok ())) (htop : depth = 0 → scope.seeds = [])
    (hunit : d ∈ unitFindings c (depth = 0) draft.toUnit) (he : e ∈ draft.graph.edges) :
    d ∉ payloadPart c depth draft.graph e := by
  intro hpart
  have hlayout := (Scanner.startingAt scope.start text).layout
  obtain ⟨hwell, hlaid⟩ := laidOver_ofText h
  have hfound : ∀ d ∈ draft.diagnostics, d.PointsTo (Span.Anchored _) scope.seeds :=
    fun d hd => pointsTo_ofText (by rw [h]; exact hd)
  obtain ⟨s, hs, -, a, ha, -, -, hlocation, -⟩ := (pointsTo_unitFindings hwell hlaid hfound
    (fun h => htop (of_decide_eq_true h)) d hunit).placed
  obtain ⟨token, htoken, t, ht, hinside, hinside', -⟩ := payloadPart_inside h he hpart
  obtain rfl : s = t := Option.some.inj (hs.symm.trans ht)
  have hstart : s.start = a.span.start := congrArg Location.offset hlocation
  -- A token starts inside no other one.
  have hle := a.span.start_le_stop
  rcases eq_or_apart hlayout.ordered ha htoken with rfl | hbefore | hbehind <;> omega

/-- **Nothing is found in two payloads** of a unit. -/
theorem disjoint_payloadParts (h : Draft.ofText c.budget scope text = (draft, .ok ()))
    (he : e ∈ draft.graph.edges) (hf : f ∈ draft.graph.edges) (hne : e ≠ f)
    (hd : d ∈ payloadPart c depth draft.graph e) : d ∉ payloadPart c depth draft.graph f := by
  intro hd'
  obtain ⟨token, -, s, hs, hinside⟩ := payloadPart_inside h he hd
  obtain ⟨token', -, t, ht, hinside'⟩ := payloadPart_inside h hf hd'
  obtain rfl : s = t := Option.some.inj (hs.symm.trans ht)
  rcases edges_apart_ofText h he hf with heq | hle | hle
  · exact hne heq
  · omega
  · omega

end

end CallGraph
