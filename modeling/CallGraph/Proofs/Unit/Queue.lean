import CallGraph.Proofs.Unit.Effect

/-!
# Stored and deferred edges

The edges of a key are deferred together, from the first one on, or they are all tried at once.

* `Draft.tries` — whether an attempt is tried at once;
* `Queues` — the edges stored are those of the fates of the attempts that are tried;
* `Accounts` — the findings about edges are those of the same fates;
* `Queues.admitEdge`, `Accounts.admitEdge` — both are kept by one more edge;
* `fates_filter_tries`, `Queues.fates_deferred` — what was tried at once and what is deferred have
  the fates that they have among all attempts.
-/

namespace CallGraph

/-- Whether the attempt has been tried and not deferred. -/
def Draft.tries (d : Draft) : Attempt → Bool
  | .edge e => !d.defers e
  | .sourceless _ => true

/-- The attempts that were tried at once have met their fates, and the edges of all other keys are
deferred.  It does not matter which names are still to come, since the ends of the edges that were
tried are declared. -/
structure Queues (told : List Attempt) (d : Draft) : Prop where
  /-- The edges are in canonical order. -/
  ascending : Ascending d.graph.edges
  /-- The ends of the edges that were tried are declared. -/
  ends_declared : ∀ e ∈ edgesOf told, d.defers e = false → e.undeclared d.graph.names = []
  /-- The edges of the deferred keys are deferred, in order. -/
  deferred_eq : d.deferred = (edgesOf told).filter d.defers
  /-- The edges that were tried are stored according to their fates. -/
  edges_perm : ∀ names, d.graph.names ⊆ names →
    d.graph.edges.Perm (storedEdges (fates names [] (told.filter d.tries)))

/-- The findings about edges are those of the fates of the attempts that were tried at once. -/
def Accounts (told : List Attempt) (d : Draft) : Prop :=
  ∀ names, d.graph.names ⊆ names →
    edgeFindings d.diagnostics = (fates names [] (told.filter d.tries)).flatMap Fate.findings

section

variable {told : List Attempt} {d d' : Draft} {e f : Edge} {a : Attempt}

/-! ### What is deferred -/

namespace Draft

theorem defers_congr (d : Draft) (h : e.key = f.key) : d.defers e = d.defers f := by
  rw [defers, defers, h]

theorem defers_of_deferred_eq (h : d'.deferred = d.deferred) : d'.defers = d.defers := by
  funext e
  rw [defers, defers, h]

theorem tries_of_deferred_eq (h : d'.deferred = d.deferred) : d'.tries = d.tries := by
  funext a
  cases a with
  | edge e => rw [tries, tries, defers_of_deferred_eq h]
  | sourceless s => rfl

theorem defers_concat (h : d'.deferred = d.deferred ++ [e]) (f : Edge) :
    d'.defers f = (d.defers f || decide (e.key = f.key)) := by
  rw [defers, h, List.any_append, List.any_cons, List.any_nil, Bool.or_false]
  rfl

end Draft

/-- The edges that were tried are those that were not deferred. -/
theorem edgesOf_filter_tries (told : List Attempt) (d : Draft) :
    edgesOf (told.filter d.tries) = (edgesOf told).filter fun e => !d.defers e := by
  induction told with
  | nil => rfl
  | cons a told ih =>
    cases a with
    | sourceless s => exact ih
    | edge e =>
      have hedges : edgesOf (.edge e :: told) = e :: edgesOf told := rfl
      rw [hedges]
      by_cases h : d.defers e = true
      · rw [List.filter_cons_of_neg (by simp [Draft.tries, h]),
          List.filter_cons_of_neg (by simp [h]), ih]
      · rw [List.filter_cons_of_pos (by simp [Draft.tries, h]),
          List.filter_cons_of_pos (by simp [h]), ← ih]
        rfl

/-- The attempts that were not tried are the deferred edges. -/
theorem filter_not_tries (told : List Attempt) (d : Draft) :
    told.filter (fun a => !d.tries a) = ((edgesOf told).filter d.defers).map Attempt.edge := by
  induction told with
  | nil => rfl
  | cons a told ih =>
    cases a with
    | sourceless s => exact ih
    | edge e =>
      have hedges : edgesOf (.edge e :: told) = e :: edgesOf told := rfl
      rw [hedges]
      by_cases h : d.defers e = true
      · rw [List.filter_cons_of_pos (by simp [Draft.tries, h]), List.filter_cons_of_pos h, ih]
        rfl
      · rw [List.filter_cons_of_neg (by simp [Draft.tries, h]), List.filter_cons_of_neg h, ih]

/-! ### One more attempt -/

theorem undeclared_of_subset {names names' : List String} (h : names ⊆ names')
    (hends : e.undeclared names = []) : e.undeclared names' = [] := by
  obtain ⟨hsource, htarget⟩ := Edge.undeclared_eq_nil.1 hends
  exact Edge.undeclared_eq_nil.2 ⟨h hsource, h htarget⟩

/-- What does not touch edges keeps them as they are. -/
theorem Queues.of_frame (h : Queues told d) (hedges : d'.graph.edges = d.graph.edges)
    (hdeferred : d'.deferred = d.deferred) (hnames : d.graph.names ⊆ d'.graph.names) :
    Queues told d' where
  ascending := hedges ▸ h.ascending
  ends_declared e he hopen := by
    rw [Draft.defers_of_deferred_eq hdeferred] at hopen
    exact undeclared_of_subset hnames (h.ends_declared e he hopen)
  deferred_eq := by
    rw [hdeferred, Draft.defers_of_deferred_eq hdeferred]
    exact h.deferred_eq
  edges_perm names hsub := by
    rw [hedges, Draft.tries_of_deferred_eq hdeferred]
    exact h.edges_perm names (List.Subset.trans hnames hsub)

/-- What adds no findings about edges keeps the account. -/
theorem Accounts.of_frame (h : Accounts told d) {findings : List Diagnostic}
    (hfindings : edgeFindings findings = []) (hdiagnostics : d'.diagnostics = d.diagnostics ++ findings)
    (hdeferred : d'.deferred = d.deferred) (hnames : d.graph.names ⊆ d'.graph.names) :
    Accounts told d' := by
  intro names hsub
  rw [hdiagnostics, edgeFindings_append, hfindings, List.append_nil,
    Draft.tries_of_deferred_eq hdeferred]
  exact h names (List.Subset.trans hnames hsub)

theorem filter_tries_concat (hdeferred : d'.deferred = d.deferred) (htries : d.tries a = true) :
    (told ++ [a]).filter d'.tries = told.filter d.tries ++ [a] := by
  rw [Draft.tries_of_deferred_eq hdeferred, List.filter_append, List.filter_singleton, htries]
  rfl

/-- An attempt that is tried is stored according to its fate. -/
theorem Queues.concat (h : Queues told d) (htries : d.tries a = true)
    (hends : ∀ e, a = .edge e → e.undeclared d.graph.names = [])
    (hdeferred : d'.deferred = d.deferred) (hnames : d'.graph.names = d.graph.names)
    (hascending : Ascending d'.graph.edges) (hedges : ∀ names, d.graph.names ⊆ names →
      d'.graph.edges.Perm (d.graph.edges ++
        (a.fate names (edgesOf (told.filter d.tries))).stored?.toList)) :
    Queues (told ++ [a]) d' where
  ascending := hascending
  ends_declared e he hopen := by
    rw [Draft.defers_of_deferred_eq hdeferred] at hopen
    rw [hnames]
    rw [edgesOf_append, List.mem_append] at he
    rcases he with he | he
    · exact h.ends_declared e he hopen
    · cases a with
      | edge x => exact List.mem_singleton.1 he ▸ hends x rfl
      | sourceless s => exact absurd he List.not_mem_nil
  deferred_eq := by
    rw [hdeferred, Draft.defers_of_deferred_eq hdeferred, edgesOf_append, List.filter_append,
      ← h.deferred_eq]
    cases a with
    | edge x =>
      have hopen : d.defers x = false := by simpa [Draft.tries] using htries
      have hx : edgesOf [.edge x] = [x] := rfl
      rw [hx, List.filter_singleton, hopen]
      exact (List.append_nil _).symm
    | sourceless s => exact (List.append_nil _).symm
  edges_perm names hsub := by
    rw [hnames] at hsub
    rw [filter_tries_concat hdeferred htries, storedEdges_concat]
    exact (hedges names hsub).trans ((h.edges_perm names hsub).append_right _)

/-- An attempt that is tried adds the findings of its fate. -/
theorem Accounts.concat (h : Accounts told d) (htries : d.tries a = true)
    {findings : List Diagnostic} (hfindings : ∀ names, d.graph.names ⊆ names →
      edgeFindings findings = (a.fate names (edgesOf (told.filter d.tries))).findings)
    (hdiagnostics : d'.diagnostics = d.diagnostics ++ findings) (hdeferred : d'.deferred = d.deferred)
    (hnames : d'.graph.names = d.graph.names) : Accounts (told ++ [a]) d' := by
  intro names hsub
  rw [hnames] at hsub
  rw [hdiagnostics, edgeFindings_append, h names hsub, hfindings names hsub,
    filter_tries_concat hdeferred htries, fates_concat, List.flatMap_append, List.flatMap_singleton]

/-! ### One more edge -/

/-- An edge that must be deferred comes behind deferred edges of its key only. -/
theorem Queues.defers_of_key (h : Queues told d)
    (hdefer : d.defers e = true ∨ e.undeclared d.graph.names ≠ []) (hf : f ∈ edgesOf told)
    (hkey : e.key = f.key) : d.defers f = true := by
  rcases hdefer with hdefers | hends
  · rw [← d.defers_congr hkey]
    exact hdefers
  · by_contra hopen
    apply hends
    rw [Edge.undeclared_congr hkey]
    exact h.ends_declared f hf (Bool.eq_false_iff.2 hopen)

/-- Deferring one more edge defers no edge before it. -/
theorem Queues.defers_concat (h : Queues told d)
    (hdefer : d.defers e = true ∨ e.undeclared d.graph.names ≠ [])
    (hdeferred : d'.deferred = d.deferred ++ [e]) (hf : f ∈ edgesOf told) :
    d'.defers f = d.defers f := by
  rw [Draft.defers_concat hdeferred]
  by_cases hkey : e.key = f.key
  · rw [h.defers_of_key hdefer hf hkey, Bool.true_or]
  · rw [decide_eq_false hkey, Bool.or_false]

/-- Deferring one more edge leaves it untried. -/
theorem Queues.filter_tries_defer (h : Queues told d)
    (hdefer : d.defers e = true ∨ e.undeclared d.graph.names ≠ [])
    (hdeferred : d'.deferred = d.deferred ++ [e]) :
    (told ++ [Attempt.edge e]).filter d'.tries = told.filter d.tries := by
  have hlast : d'.tries (.edge e) = false := by
    rw [Draft.tries, Draft.defers_concat hdeferred, decide_eq_true rfl, Bool.or_true]
    rfl
  rw [List.filter_append, List.filter_singleton, hlast, cond_false, List.append_nil]
  apply List.filter_congr
  intro a ha
  cases a with
  | sourceless s => rfl
  | edge x =>
    have hx : x ∈ edgesOf told := List.mem_filterMap.2 ⟨Attempt.edge x, ha, rfl⟩
    rw [Draft.tries, Draft.tries, h.defers_concat hdefer hdeferred hx]

/-- One more edge is deferred. -/
theorem Queues.defer (h : Queues told d)
    (hdefer : d.defers e = true ∨ e.undeclared d.graph.names ≠ [])
    (hgraph : d'.graph = d.graph) (hdeferred : d'.deferred = d.deferred ++ [e]) :
    Queues (told ++ [.edge e]) d' where
  ascending := hgraph ▸ h.ascending
  ends_declared x hx hopen := by
    rw [edgesOf_concat, List.mem_append] at hx
    rw [hgraph]
    rcases hx with hx | hx
    · rw [h.defers_concat hdefer hdeferred hx] at hopen
      exact h.ends_declared x hx hopen
    · rw [List.mem_singleton.1 hx, Draft.defers_concat hdeferred, decide_eq_true rfl,
        Bool.or_true] at hopen
      exact absurd hopen (by decide)
  deferred_eq := by
    have hold : (edgesOf told).filter d'.defers = (edgesOf told).filter d.defers :=
      List.filter_congr fun x hx => h.defers_concat hdefer hdeferred hx
    have hlast : d'.defers e = true := by
      rw [Draft.defers_concat hdeferred, decide_eq_true rfl, Bool.or_true]
    rw [edgesOf_concat, List.filter_append, hold, ← h.deferred_eq, List.filter_singleton, hlast,
      hdeferred]
    rfl
  edges_perm names hsub := by
    rw [hgraph] at hsub ⊢
    rw [h.filter_tries_defer hdefer hdeferred]
    exact h.edges_perm names hsub

/-- An edge that is not deferred enters the graph according to its fate. -/
theorem Queues.fate (h : Queues told d) (hends : e.undeclared d.graph.names = [])
    {edges : List Edge} {faults : List Fault} (henters : Enters d.graph.edges e edges faults)
    {names : List String} (hsub : d.graph.names ⊆ names) :
    ((Attempt.edge e).fate names (edgesOf (told.filter d.tries))).faults = faults ∧
      edges.Perm (d.graph.edges ++
        ((Attempt.edge e).fate names (edgesOf (told.filter d.tries))).stored?.toList) :=
  henters.fate (undeclared_of_subset hsub hends) fun _ _ => (h.edges_perm names hsub).mem_iff

/-- **One more edge** is stored or deferred as the edges of its key are. -/
theorem Queues.admitEdge (h : Queues told d) (e : Edge) :
    Queues (told ++ [.edge e]) (d.admitEdge e) := by
  rcases d.admitEdge_cases h.ascending e with ⟨hdefer, heq⟩ |
    ⟨hopen, hends, edges, faults, henters, heq⟩
  · rw [heq]
    exact h.defer hdefer rfl rfl
  · rw [heq]
    refine h.concat (by rw [Draft.tries, hopen]; rfl) ?_ rfl rfl (henters.ascending h.ascending)
      fun names hsub => (h.fate hends henters hsub).2
    rintro x hx
    rw [← Attempt.edge.inj hx]
    exact hends

/-- **The findings about one more edge** are those of its fate, unless it is deferred. -/
theorem Accounts.admitEdge (h : Accounts told d) (hqueues : Queues told d) (e : Edge) :
    Accounts (told ++ [.edge e]) (d.admitEdge e) := by
  rcases d.admitEdge_cases hqueues.ascending e with ⟨hdefer, heq⟩ |
    ⟨hopen, hends, edges, faults, henters, heq⟩
  · intro names hsub
    rw [heq] at hsub ⊢
    rw [hqueues.filter_tries_defer hdefer rfl]
    exact h names hsub
  · rw [heq]
    refine h.concat (by rw [Draft.tries, hopen]; rfl) (fun names hsub => ?_) rfl rfl rfl
    rw [← edgeFindings_findings, Fate.findings, (hqueues.fate hends henters hsub).1, span_fate]
    rfl

/-- A statement without a source leaves the edges alone. -/
theorem Queues.sourceless (h : Queues told d) (s : EdgeStatement)
    (hgraph : d'.graph = d.graph) (hdeferred : d'.deferred = d.deferred) :
    Queues (told ++ [.sourceless s]) d' := by
  refine h.concat rfl ?_ hdeferred (by rw [hgraph]) (hgraph ▸ h.ascending) fun names _ => ?_
  · exact fun e he => Attempt.noConfusion he
  · rw [hgraph]
    exact (List.append_nil d.graph.edges).symm ▸ .refl _

/-! ### Deferred keys -/

theorem Draft.tries_congr (d : Draft) (e f : Edge) (h : e.key = f.key) :
    d.tries (.edge e) = d.tries (.edge f) := by
  rw [tries, tries, d.defers_congr h]

/-- The attempts that were tried at once have the fates that they have among all attempts. -/
theorem fates_filter_tries (names : List String) (d : Draft) (told : List Attempt) :
    fates names [] (told.filter d.tries) =
      (fates names [] told).filter fun fate => d.tries fate.attempt :=
  fates_filter d.tries_congr names [] told

/-- The deferred edges have the fates that they have among all attempts. -/
theorem Queues.fates_deferred (h : Queues told d) (names : List String) :
    fates names [] (d.deferred.map .edge) =
      (fates names [] told).filter fun fate => !d.tries fate.attempt := by
  have hcongr : ∀ e f : Edge, e.key = f.key → (!d.tries (.edge e)) = !d.tries (.edge f) :=
    fun e f hkey => congrArg not (d.tries_congr e f hkey)
  rw [h.deferred_eq, ← filter_not_tries]
  exact fates_filter hcongr names [] told

end

end CallGraph
