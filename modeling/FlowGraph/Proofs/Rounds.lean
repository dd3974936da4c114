import FlowGraph.Proofs.Frontier

/-!
# The supersteps that a run makes

A run hands back a store or a fault, and no record of what it did on the way.
Such a record is kept here: the frontiers of its supersteps, first one first.
A superstep that fails belongs to the record, since its nodes have run; a
boundary at which the run stops does not.

* `Machine.rounds`: the record of a run.
* `Machine.runRecorded_eq`: **the record is made by the run itself**, superstep by
  superstep, and does not change its result.
* `getElem?_rounds_iff`: **the record lists the boundaries that a run goes on
  from**, and nothing else.
* `Machine.RunsIn`: a node runs in a superstep.
-/

namespace FlowGraph.Machine

variable {m : Machine} {ctx : RunConfig} {inputs : Store}

/-- The frontiers of the supersteps made from a boundary on. -/
def roundsFrom (m : Machine) (ctx : RunConfig) : (budget : Nat) → Boundary → List (List String)
  | 0, _ => []
  | budget + 1, b =>
    if m.halts b then []
    else
      b.frontier ::
        match m.advance ctx b with
        | .error _ => []
        | .ok next => roundsFrom m ctx budget next

/-- The frontiers of the supersteps of a run. -/
def rounds (m : Machine) (ctx : RunConfig) (inputs : Store) : List (List String) :=
  match m.enter ctx inputs with
  | .error _ => []
  | .ok b => m.roundsFrom ctx m.config.maxSteps b

/-- A node runs in a superstep of a run; the first superstep has the number 1. -/
def RunsIn (m : Machine) (ctx : RunConfig) (inputs : Store) (superstep : Nat) (id : String) :
    Prop :=
  ∃ n ids, superstep = n + 1 ∧ (m.rounds ctx inputs)[n]? = some ids ∧ id ∈ ids

/-! ## The record and the run -/

/-- The loop of a run, which writes down the frontier of each superstep before making it. -/
def loopRecorded (m : Machine) (ctx : RunConfig) :
    (budget : Nat) → (made : List (List String)) → Boundary →
      Except Fault Store × List (List String)
  | 0, made, b =>
    if m.halts b then (.ok b.store, made)
    else (.error (.stepLimitExceeded m.config.maxSteps), made)
  | budget + 1, made, b =>
    if m.halts b then (.ok b.store, made)
    else
      let made := made ++ [b.frontier]
      match m.advance ctx b with
      | .error fault => (.error fault, made)
      | .ok next => loopRecorded m ctx budget made next

/-- A whole run with the record that it keeps. -/
def runRecorded (m : Machine) (inputs : Store) (ctx : RunConfig) :
    Except Fault Store × List (List String) :=
  match m.enter ctx inputs with
  | .error fault => (.error fault, [])
  | .ok b => m.loopRecorded ctx m.config.maxSteps [] b

/-- The loop that keeps a record ends as the loop without it, and adds to the record the
supersteps that are left. -/
theorem loopRecorded_eq (m : Machine) (ctx : RunConfig) (budget : Nat)
    (made : List (List String)) (b : Boundary) :
    m.loopRecorded ctx budget made b = (m.loop ctx budget b, made ++ m.roundsFrom ctx budget b) := by
  induction budget generalizing made b with
  | zero => cases hhalts : m.halts b <;> simp [loopRecorded, loop, roundsFrom, hhalts]
  | succ budget ih =>
      cases hhalts : m.halts b with
      | true => simp [loopRecorded, loop, roundsFrom, hhalts]
      | false =>
          cases hstep : m.advance ctx b with
          | error fault => simp [loopRecorded, loop, roundsFrom, hhalts, hstep]
          | ok next => simp [loopRecorded, loop, roundsFrom, hhalts, hstep, ih]

/-- **The record is made by the run itself**: a run that writes down its supersteps ends
as the run does, and has written down `rounds`. -/
theorem runRecorded_eq (m : Machine) (inputs : Store) (ctx : RunConfig) :
    m.runRecorded inputs ctx = (m.run inputs ctx, m.rounds ctx inputs) := by
  unfold runRecorded run rounds
  cases m.enter ctx inputs with
  | error fault => rfl
  | ok b => exact loopRecorded_eq m ctx m.config.maxSteps [] b

/-! ## The record and the boundaries -/

/-- A run that has come to a boundary has passed the ones before it. -/
theorem Reaches.exists_earlier {n k : Nat} {b : Boundary} (h : m.Reaches ctx inputs n b)
    (hk : k ≤ n) : ∃ earlier, m.Reaches ctx inputs k earlier := by
  induction h with
  | @enter b henter =>
      have hzero : k = 0 := by omega
      rw [hzero]
      exact ⟨b, .enter henter⟩
  | @advance n b next hreach hgoes hbudget hstep ih =>
      by_cases hlast : k = n + 1
      · rw [hlast]
        exact ⟨next, .advance hreach hgoes hbudget hstep⟩
      · exact ih (by omega)

/-- From a boundary on, the record lists the boundaries that the run goes on from. -/
private theorem getElem?_roundsFrom_iff {budget n : Nat} {b : Boundary}
    (hreach : m.Reaches ctx inputs n b) (hbudget : n + budget = m.config.maxSteps) (k : Nat)
    (ids : List String) :
    (m.roundsFrom ctx budget b)[k]? = some ids ↔
      ∃ b', m.Reaches ctx inputs (n + k) b' ∧ m.halts b' = false ∧ n + k < m.config.maxSteps ∧
        b'.frontier = ids := by
  induction budget generalizing n b k with
  | zero =>
      constructor
      · intro h
        cases h
      · intro h
        obtain ⟨b', -, -, hleft, -⟩ := h
        omega
  | succ budget ih =>
      cases hhalts : m.halts b with
      | true =>
          constructor
          · intro h
            simp [roundsFrom, hhalts] at h
          · intro h
            obtain ⟨b', hreach', hgoes', -, -⟩ := h
            -- the run stops at `b`, so `b'` is no later boundary
            have hk : k = 0 := by
              have hle := hreach'.le_of_halts hreach hhalts
              omega
            subst hk
            rw [hreach'.unique hreach, hhalts] at hgoes'
            cases hgoes'
      | false =>
          cases k with
          | zero =>
              have hhead : (m.roundsFrom ctx (budget + 1) b)[0]? = some b.frontier := by
                simp [roundsFrom, hhalts]
              rw [hhead, Option.some.injEq]
              constructor
              · intro h
                exact ⟨b, hreach, hhalts, by omega, h⟩
              · intro h
                obtain ⟨b', hreach', -, -, hids⟩ := h
                rwa [← hreach'.unique hreach]
          | succ k =>
              cases hstep : m.advance ctx b with
              | error fault =>
                  constructor
                  · intro h
                    simp [roundsFrom, hhalts, hstep] at h
                  · intro h
                    obtain ⟨b', hreach', -, -, -⟩ := h
                    obtain ⟨next, hnext⟩ := hreach'.exists_earlier (k := n + 1) (by omega)
                    have hok := hreach.advance_eq hnext
                    rw [hstep] at hok
                    cases hok
              | ok next =>
                  have htail : (m.roundsFrom ctx (budget + 1) b)[k + 1]? =
                      (m.roundsFrom ctx budget next)[k]? := by
                    simp [roundsFrom, hhalts, hstep]
                  have hsum : n + (k + 1) = n + 1 + k := by omega
                  rw [htail, hsum]
                  exact ih (.advance hreach hhalts (by omega) hstep) (by omega) k

/-- **The record lists the boundaries that a run goes on from.** -/
theorem getElem?_rounds_iff (n : Nat) (ids : List String) :
    (m.rounds ctx inputs)[n]? = some ids ↔
      ∃ b, m.Reaches ctx inputs n b ∧ m.halts b = false ∧ n < m.config.maxSteps ∧
        b.frontier = ids := by
  unfold rounds
  cases henter : m.enter ctx inputs with
  | error fault =>
      constructor
      · intro h
        cases h
      · intro h
        obtain ⟨b, hreach, -, -, -⟩ := h
        obtain ⟨first, hfirst⟩ := hreach.exists_first
        rw [henter] at hfirst
        cases hfirst
  | ok b =>
      simpa using getElem?_roundsFrom_iff (.enter henter) (Nat.zero_add _) n ids

/-- A node runs in a superstep iff the run goes on from a boundary with it. -/
theorem runsIn_succ_iff {n : Nat} {id : String} :
    m.RunsIn ctx inputs (n + 1) id ↔
      ∃ b, m.Reaches ctx inputs n b ∧ m.halts b = false ∧ n < m.config.maxSteps ∧
        id ∈ b.frontier := by
  constructor
  · intro h
    obtain ⟨n', ids, hn, hround, hid⟩ := h
    cases hn
    obtain ⟨b, hreach, hgoes, hleft, rfl⟩ := (getElem?_rounds_iff n ids).mp hround
    exact ⟨b, hreach, hgoes, hleft, hid⟩
  · intro h
    obtain ⟨b, hreach, hgoes, hleft, hid⟩ := h
    exact ⟨n, b.frontier, rfl,
      (getElem?_rounds_iff n b.frontier).mpr ⟨b, hreach, hgoes, hleft, rfl⟩, hid⟩

/-! ## How long the record is -/

/-- **A run makes no more supersteps than it may.** -/
theorem length_rounds_le (m : Machine) (ctx : RunConfig) (inputs : Store) :
    (m.rounds ctx inputs).length ≤ m.config.maxSteps := by
  by_contra hlong
  have hround : m.config.maxSteps < (m.rounds ctx inputs).length := by omega
  obtain ⟨b, -, -, hleft, -⟩ := (getElem?_rounds_iff _ _).mp (List.getElem?_eq_getElem hround)
  exact absurd hleft (Nat.lt_irrefl _)

/-- A frontier of the record lists each node once. -/
theorem nodup_of_mem_rounds {stops : List String} (hedges : m.topology.edges.Nodup)
    (hclosed : m.topology.Closed stops) {ids : List String} (h : ids ∈ m.rounds ctx inputs) :
    ids.Nodup := by
  obtain ⟨n, hround⟩ := List.mem_iff_getElem?.mp h
  obtain ⟨b, hreach, -, -, rfl⟩ := (getElem?_rounds_iff n ids).mp hround
  exact (hreach.sound hedges hclosed).distinct

/-- What is listed once at most in each list of a series is listed no more often
than there are lists. -/
private theorem count_flatten_le {ids : List (List String)} (h : ∀ list ∈ ids, list.Nodup)
    (id : String) : ids.flatten.count id ≤ ids.length := by
  induction ids with
  | nil => simp
  | cons list rest ih =>
      obtain ⟨hlist, hrest⟩ := List.forall_mem_cons.mp h
      have hhere : list.count id ≤ 1 := List.nodup_iff_count_le_one.mp hlist id
      have hthere := ih hrest
      rw [List.flatten_cons, List.count_append, List.length_cons]
      omega

/-- **A node runs no more often than there are supersteps.** -/
theorem count_rounds_le {stops : List String} (hedges : m.topology.edges.Nodup)
    (hclosed : m.topology.Closed stops) (id : String) :
    (m.rounds ctx inputs).flatten.count id ≤ m.config.maxSteps := by
  have hnodup : ∀ ids ∈ m.rounds ctx inputs, ids.Nodup := by
    intro ids hmem
    exact nodup_of_mem_rounds hedges hclosed hmem
  exact Nat.le_trans (count_flatten_le hnodup id) (length_rounds_le m ctx inputs)

end FlowGraph.Machine
