import Schemreg.Lib.DepthFirstWalk

/-
  The nodes that a depth-first walk has left, as a record beside what it collects.

  `logged` adds the record; it changes nothing else (`Course.logged`). `traversal` is the
  record of a walk that collects nothing else, so it depends on the graph only. A walk whose
  `leave` may fail follows the traversal up to the first node that cannot be left
  (`Course.follows_traversal`), and so the length of its record is decided by how far the
  collection along the traversal goes (`Course.lt_length_log`).
-/

namespace DepthFirst

variable {E N S O ε : Type} [DecidableEq N]

/-- `leave`, with a record of the nodes that were left. -/
def logged (leave : E → S → O → Except ε O) (e : E) (s : S) (out : O × List (E × S)) :
    Except ε (O × List (E × S)) :=
  match leave e s out.1 with
  | .ok out' => .ok (out', out.2 ++ [(e, s)])
  | .error err => .error err

/-- The record alone. -/
def record (e : E) (s : S) (log : List (E × S)) : Except ε (List (E × S)) := .ok (log ++ [(e, s)])

/-- Nothing stops the walk on entering a node. -/
def always (_ : O) : Except ε Unit := .ok ()

variable {key : E → N} {fetch : E → Except ε S} {children : S → List E}
  {check : O → Except ε Unit} {leave : E → S → O → Except ε O} {tooDeep : ε}
  {levels : Nat} {es : List E} {result : Except ε Unit}

theorem logged_eq_ok {e : E} {s : S} {out : O} {log : List (E × S)} {out' : O × List (E × S)} :
    logged leave e s (out, log) = .ok out' ↔
      leave e s out = .ok out'.1 ∧ out'.2 = log ++ [(e, s)] := by
  unfold logged
  obtain ⟨o, l⟩ := out'
  cases leave e s out with
  | ok o' => simp [eq_comm]
  | error err => simp

theorem logged_eq_error {e : E} {s : S} {out : O × List (E × S)} {err : ε} :
    logged leave e s out = .error err ↔ leave e s out.1 = .error err := by
  unfold logged
  cases leave e s out.1 <;> simp

/-- The record of the traversal of a graph from nothing. -/
def traversal (key : E → N) (fetch : E → Except ε S) (children : S → List E) (tooDeep : ε)
    (levels : Nat) (es : List E) : List (E × S) :=
  (walk key fetch children always record tooDeep levels es ⟨[], [], []⟩).2.out

omit [DecidableEq N] in
/-- The record changes nothing else. -/
theorem Course.logged {w w' : Walk N O}
    (h : Course key fetch children check leave tooDeep levels es w result w') :
    ∀ log, ∃ log', Course key fetch children (fun out => check out.1) (DepthFirst.logged leave)
      tooDeep levels es (w.put (w.out, log)) result (w'.put (w'.out, log')) := by
  induction h with
  | nil => exact fun log => ⟨log, Course.nil⟩
  | tooDeep => exact fun log => ⟨log, Course.tooDeep⟩
  | seen old _ ih =>
    intro log
    obtain ⟨log', hrest⟩ := ih log
    exact ⟨log', Course.seen old hrest⟩
  | rejected new full => exact fun log => ⟨log, Course.rejected new full⟩
  | notFetched new room failed => exact fun log => ⟨log, Course.notFetched new room failed⟩
  | failedBelow new room found _ ih =>
    intro log
    obtain ⟨log', hinner⟩ := ih log
    exact ⟨log', Course.failedBelow new room found hinner⟩
  | notLeft new room found _ failed ih =>
    intro log
    obtain ⟨log', hinner⟩ := ih log
    exact ⟨log', Course.notLeft new room found hinner (logged_eq_error.mpr failed)⟩
  | @visit _ e _ _ s _ _ _ _ new room found _ left _ ihInner ihRest =>
    intro log
    obtain ⟨inner, hinner⟩ := ihInner log
    obtain ⟨log', hrest⟩ := ihRest (inner ++ [(e, s)])
    exact ⟨log', Course.visit new room found hinner (logged_eq_ok.mpr ⟨left, rfl⟩) hrest⟩

omit [DecidableEq N] in
/-- What was collected was collected along the record. -/
theorem Course.collects {out₀ : O} {w w' : Walk N (O × List (E × S))}
    {check : O × List (E × S) → Except ε Unit}
    (h : Course key fetch children check (DepthFirst.logged leave) tooDeep levels es w result w')
    (hw : collect leave w.out.2 out₀ = .ok w.out.1) :
    collect leave w'.out.2 out₀ = .ok w'.out.1 := by
  induction h with
  | nil => exact hw
  | tooDeep => exact hw
  | seen _ _ ih => exact ih hw
  | rejected _ _ => exact hw
  | notFetched _ _ _ => exact hw
  | failedBelow _ _ _ _ ih => exact ih hw
  | notLeft _ _ _ _ _ ih => exact ih hw
  | @visit _ e _ _ s out below _ _ _ _ _ _ left _ ihInner ihRest =>
    apply ihRest
    obtain ⟨hleft, hlog⟩ := logged_eq_ok.mp left
    show collect leave out.2 out₀ = .ok out.1
    rw [hlog, collect_append, ihInner hw]
    show collect leave [(e, s)] below.out.1 = .ok out.1
    rw [collect_cons, hleft]
    rfl

theorem collect_logged {firsts : List (E × S)} {out out' : O × List (E × S)}
    (h : collect (DepthFirst.logged leave) firsts out = .ok out') : out'.2 = out.2 ++ firsts := by
  induction firsts generalizing out with
  | nil =>
    cases h
    exact (List.append_nil _).symm
  | cons first firsts ih =>
    obtain ⟨e, s⟩ := first
    rw [collect_cons] at h
    cases hlog : DepthFirst.logged leave e s out with
    | error err =>
      rw [hlog] at h
      cases h
    | ok mid =>
      rw [hlog] at h
      rw [ih h, (logged_eq_ok.mp hlog).2, List.append_assoc]
      rfl

omit [DecidableEq N] in
/-- The nodes that a walk adds to its record are requested by it, each once, and were not
    known before. -/
theorem Course.log_new {w w' : Walk N (O × List (E × S))}
    (h : Course key fetch children always (DepthFirst.logged leave) tooDeep levels es w result w')
    (hw : w.requested = w.visited) :
    ∃ new, w'.out.2 = w.out.2 ++ new ∧ (new.map fun first => key first.1).Nodup ∧
      ∀ first ∈ new, key first.1 ∉ w.visited ∧ key first.1 ∈ w'.requested := by
  induction h with
  | nil => exact ⟨[], (List.append_nil _).symm, List.nodup_nil, fun _ hf => by cases hf⟩
  | tooDeep => exact ⟨[], (List.append_nil _).symm, List.nodup_nil, fun _ hf => by cases hf⟩
  | seen _ _ ih => exact ih hw
  | rejected _ full => cases full
  | notFetched _ _ _ =>
    exact ⟨[], (List.append_nil _).symm, List.nodup_nil, fun _ hf => by cases hf⟩
  | @failedBelow _ e _ w _ _ _ _ _ _ _ ih =>
    obtain ⟨new, hlog, hnodup, hnew⟩ := ih (ask_requested hw (key e))
    exact ⟨new, hlog, hnodup, fun first hf => ⟨fun hmem => (hnew first hf).1
      (List.mem_append_left _ hmem), (hnew first hf).2⟩⟩
  | @notLeft _ e _ w _ _ _ _ _ _ _ _ ih =>
    obtain ⟨new, hlog, hnodup, hnew⟩ := ih (ask_requested hw (key e))
    exact ⟨new, hlog, hnodup, fun first hf => ⟨fun hmem => (hnew first hf).1
      (List.mem_append_left _ hmem), (hnew first hf).2⟩⟩
  | @visit _ e _ w s out below _ w' new _ _ inner left rest ihInner ihRest =>
    obtain ⟨inside, hinside, hnodupInside, hnewInside⟩ := ihInner (ask_requested hw (key e))
    have hbelow : below.requested = below.visited :=
      (inner.requested_prefix (ask_requested hw (key e))).2 rfl
    obtain ⟨later, hlater, hnodupLater, hnewLater⟩ := ihRest hbelow
    obtain ⟨-, hout⟩ := logged_eq_ok.mp left
    have hasked : key e ∈ below.visited := inner.grows (by simp [Walk.ask])
    have hkept : ∀ n ∈ below.visited, n ∈ w'.requested := by
      intro n hn
      rw [← hbelow] at hn
      exact rest.requests_grow.subset hn
    refine ⟨inside ++ (e, s) :: later, ?_, ?_, ?_⟩
    · rw [hlater]
      show out.2 ++ later = _
      rw [hout, hinside]
      simp [Walk.ask]
    · rw [List.map_append, List.map_cons, List.perm_middle.nodup_iff, List.nodup_cons,
        List.nodup_append]
      refine ⟨fun hmem => ?_, hnodupInside, hnodupLater, ?_⟩
      · rcases List.mem_append.mp hmem with hmem | hmem
        · obtain ⟨first, hf, hkey⟩ := List.mem_map.mp hmem
          exact (hnewInside first hf).1 (by rw [hkey]; simp [Walk.ask])
        · obtain ⟨first, hf, hkey⟩ := List.mem_map.mp hmem
          exact (hnewLater first hf).1 (by rw [hkey]; exact hasked)
      · intro a ha b hb heq
        obtain ⟨first, hf, hfirst⟩ := List.mem_map.mp ha
        obtain ⟨second, hs, hsecond⟩ := List.mem_map.mp hb
        have hknown := (hnewInside first hf).2
        rw [hbelow, hfirst, heq, ← hsecond] at hknown
        exact (hnewLater second hs).1 hknown
    · intro first hf
      rcases List.mem_append.mp hf with hf | hf
      · obtain ⟨hnew, hreq⟩ := hnewInside first hf
        exact ⟨fun hmem => hnew (List.mem_append_left _ hmem), hkept _ (hbelow ▸ hreq)⟩
      · rcases List.mem_cons.mp hf with rfl | hf
        · exact ⟨new, hkept _ hasked⟩
        · obtain ⟨hnew, hreq⟩ := hnewLater first hf
          exact ⟨fun hmem => hnew (inner.grows (List.mem_append_left _ hmem)), hreq⟩

omit [DecidableEq N] in
/-- A record only grows. -/
theorem Course.record_grows {w w' : Walk N (List (E × S))}
    (h : Course key fetch children always record tooDeep levels es w result w') :
    w.out <+: w'.out := by
  induction h with
  | nil => exact List.prefix_refl _
  | tooDeep => exact List.prefix_refl _
  | seen _ _ ih => exact ih
  | rejected _ _ => exact List.prefix_refl _
  | notFetched _ _ _ => exact List.prefix_refl _
  | failedBelow _ _ _ _ ih => exact ih
  | notLeft _ _ _ _ failed _ => cases failed
  | @visit _ e _ _ s _ below _ _ _ _ _ _ left _ ihInner ihRest =>
    have hput : below.out <+: (below.put (below.out ++ [(e, s)])).out := List.prefix_append _ _
    cases left
    exact (ihInner.trans hput).trans ihRest

/-- The walk stopped because the next node of the record could not be left. -/
def StoppedBefore (leave : E → S → O → Except ε O) (out : O × List (E × S))
    (result : Except ε Unit) (log : List (E × S)) : Prop :=
  ∃ e s rest err, log = out.2 ++ (e, s) :: rest ∧ leave e s out.1 = .error err ∧
    result = .error err

/-- The walk follows the traversal to the end, or up to the first node that cannot be left. -/
theorem Course.follows_traversal {w w' : Walk N (O × List (E × S))}
    (h : Course key fetch children always (DepthFirst.logged leave) tooDeep levels es w result w') :
    ∀ u : Walk N (List (E × S)), u.visited = w.visited → u.out = w.out.2 →
      ∃ result' u', Course key fetch children always record tooDeep levels es u result' u' ∧
        ((result' = result ∧ u'.visited = w'.visited ∧ u'.out = w'.out.2) ∨
          StoppedBefore leave w'.out result u'.out) := by
  induction h with
  | nil => exact fun u hv hl => ⟨_, u, Course.nil, Or.inl ⟨rfl, hv, hl⟩⟩
  | tooDeep => exact fun u hv hl => ⟨_, u, Course.tooDeep, Or.inl ⟨rfl, hv, hl⟩⟩
  | seen old _ ih =>
    intro u hv hl
    obtain ⟨result', u', hcourse, hcase⟩ := ih u hv hl
    exact ⟨result', u', Course.seen (hv ▸ old) hcourse, hcase⟩
  | rejected _ full => cases full
  | @notFetched _ e _ _ _ new _ failed =>
    intro u hv hl
    refine ⟨_, u.ask (key e), Course.notFetched (hv ▸ new) rfl failed, Or.inl ⟨rfl, ?_, hl⟩⟩
    show u.visited ++ [key e] = _
    rw [hv]
    rfl
  | @failedBelow levels e es w s err below new _ found _ ih =>
    intro u hv hl
    have hask : (u.ask (key e)).visited = (w.ask (key e)).visited := by simp [Walk.ask, hv]
    obtain ⟨result', u', hinner, hcase⟩ := ih (u.ask (key e)) hask hl
    have hnew : key e ∉ u.visited := hv ▸ new
    cases result' with
    | error err' =>
      exact ⟨_, u', Course.failedBelow hnew rfl found hinner, hcase⟩
    | ok =>
      -- the traversal goes on where the walk has stopped
      have hrest : Course key fetch children always record tooDeep (levels + 1) es
          (u'.put (u'.out ++ [(e, s)])) _ _ := walk_course (levels + 1) es _
      refine ⟨_, _, Course.visit hnew rfl found hinner rfl hrest, Or.inr ?_⟩
      rcases hcase with ⟨hsame, -, -⟩ | ⟨e', s', rest, err', hlog, hleave, hresult⟩
      · cases hsame
      · obtain ⟨more, hmore⟩ := hrest.record_grows
        refine ⟨e', s', rest ++ [(e, s)] ++ more, err', ?_, hleave, hresult⟩
        rw [← hmore]
        show (u'.out ++ [(e, s)]) ++ more = _
        rw [hlog]
        simp
  | @notLeft levels e es w s err below new _ found _ failed ih =>
    intro u hv hl
    have hask : (u.ask (key e)).visited = (w.ask (key e)).visited := by simp [Walk.ask, hv]
    obtain ⟨result', u', hinner, hcase⟩ := ih (u.ask (key e)) hask hl
    have hnew : key e ∉ u.visited := hv ▸ new
    rcases hcase with ⟨rfl, -, hlog⟩ | ⟨_, _, _, _, -, -, hresult⟩
    · have hrest : Course key fetch children always record tooDeep (levels + 1) es
          (u'.put (u'.out ++ [(e, s)])) _ _ := walk_course (levels + 1) es _
      refine ⟨_, _, Course.visit hnew rfl found hinner rfl hrest, Or.inr ?_⟩
      obtain ⟨more, hmore⟩ := hrest.record_grows
      refine ⟨e, s, more, err, ?_, logged_eq_error.mp failed, rfl⟩
      rw [← hmore]
      show (u'.out ++ [(e, s)]) ++ more = _
      rw [hlog]
      simp
    · cases hresult
  | @visit levels e es w s out below result w' new _ found _ left _ ihInner ihRest =>
    intro u hv hl
    have hask : (u.ask (key e)).visited = (w.ask (key e)).visited := by simp [Walk.ask, hv]
    obtain ⟨result', u', hinner, hcase⟩ := ihInner (u.ask (key e)) hask hl
    have hnew : key e ∉ u.visited := hv ▸ new
    rcases hcase with ⟨rfl, hvisited, hlog⟩ | ⟨_, _, _, _, -, -, hresult⟩
    · obtain ⟨-, hout⟩ := logged_eq_ok.mp left
      obtain ⟨result'', u'', hrest, hcase⟩ := ihRest (u'.put (u'.out ++ [(e, s)])) hvisited
        (by
          show u'.out ++ [(e, s)] = out.2
          rw [hout, hlog])
      exact ⟨result'', u'', Course.visit hnew rfl found hinner rfl hrest, hcase⟩
    · cases hresult

/-- Started with nothing visited, the record of a walk is that part of the traversal along
    which the collection succeeds. -/
theorem Course.log_traversal {out₀ : O} {w' : Walk N (O × List (E × S))}
    (h : Course key fetch children always (DepthFirst.logged leave) tooDeep levels es
      ⟨[], [], (out₀, [])⟩ result w') :
    traversal key fetch children tooDeep levels es = w'.out.2 ∨
      StoppedBefore leave w'.out result (traversal key fetch children tooDeep levels es) := by
  obtain ⟨result', u', hcourse, hcase⟩ := h.follows_traversal ⟨[], [], []⟩ rfl rfl
  have htraversal : traversal key fetch children tooDeep levels es = u'.out := by
    unfold traversal
    rw [hcourse.walk_eq]
  rw [htraversal]
  exact hcase.imp_left fun hsame => hsame.2.2

/-- More than `n` nodes are left exactly when the collection along the first `n + 1` nodes of
    the traversal succeeds. -/
theorem Course.lt_length_log {out₀ : O} {w' : Walk N (O × List (E × S))} {n : Nat}
    (h : Course key fetch children always (DepthFirst.logged leave) tooDeep levels es
      ⟨[], [], (out₀, [])⟩ result w') :
    n < w'.out.2.length ↔
      n < (traversal key fetch children tooDeep levels es).length ∧
        ∃ out, collect leave ((traversal key fetch children tooDeep levels es).take (n + 1)) out₀ =
          .ok out := by
  have hcollect : collect leave w'.out.2 out₀ = .ok w'.out.1 := h.collects rfl
  -- the collection along a part of what was collected succeeds
  have hpart : ∀ m, ∃ out, collect leave (w'.out.2.take m) out₀ = .ok out := by
    intro m
    rw [← List.take_append_drop m w'.out.2, collect_append] at hcollect
    cases hfront : collect leave (w'.out.2.take m) out₀ with
    | ok out => exact ⟨out, rfl⟩
    | error err =>
      rw [hfront] at hcollect
      cases hcollect
  rcases h.log_traversal with hall | ⟨e, s, rest, err, hsplit, hleave, -⟩
  · rw [hall]
    exact ⟨fun hlt => ⟨hlt, hpart (n + 1)⟩, fun hboth => hboth.1⟩
  · constructor
    · intro hlt
      rw [hsplit]
      refine ⟨by rw [List.length_append]; omega, ?_⟩
      rw [List.take_append_of_le_length (by omega)]
      exact hpart (n + 1)
    · rintro ⟨-, out, hout⟩
      by_contra hle
      -- the node at which the walk stopped is one of them
      obtain ⟨k, hk⟩ : ∃ k, n + 1 = w'.out.2.length + (k + 1) := ⟨n - w'.out.2.length, by omega⟩
      rw [hsplit, hk, List.take_length_add_append, List.take_succ_cons, collect_append,
        hcollect] at hout
      have hstop : collect leave ((e, s) :: rest.take k) w'.out.1 = .ok out := hout
      rw [collect_cons, hleave] at hstop
      cases hstop

end DepthFirst
