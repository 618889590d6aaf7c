import Sush.Server.Step

/-!
# What settling rules

Once the ready messages have drained, a sled rules on the jobs that an earlier life left behind. It
declares the jobs interrupted that are still marked as running and were not reaped before, and then,
if there is a universe, says of the boundary job what the record holds. The loop over the marked jobs
and the checks of the record become one equation here (`settle_eq`).
-/

namespace Sush

variable [World] [Crypto]

theorem foldl_reapZombie (now : DateTime) {jobs : List JobId} (hnodup : jobs.Nodup)
    (acc : State × List Output) :
    ∃ reaped, jobs.foldl (State.reapZombie now) acc =
        ({ acc.1 with past := { acc.1.past with reaped } },
          acc.2 ++ (jobs.filter (!acc.1.past.reaped.contains ·)).map fun jobId =>
            .jobEvent acc.1.rack.ownBaseboard (.error jobId now .interrupted)) ∧
      ∀ jobId, reaped.contains jobId = true ↔ acc.1.past.reaped.contains jobId = true ∨ jobId ∈ jobs := by
  induction jobs generalizing acc with
  | nil => exact ⟨acc.1.past.reaped, by simp, by simp⟩
  | cons j jobs ih =>
    obtain ⟨hj, hnodup⟩ := List.nodup_cons.1 hnodup
    rw [List.foldl_cons]
    unfold State.reapZombie
    by_cases hreaped : acc.1.past.reaped.contains j = true
    · rw [if_pos hreaped]
      obtain ⟨reaped, heq, hmem⟩ := ih hnodup acc
      refine ⟨reaped, by rw [List.filter_cons_of_neg (by simpa using hreaped)]; exact heq, ?_⟩
      intro jobId
      rw [hmem, List.mem_cons]
      constructor
      · rintro (h | h)
        · exact .inl h
        · exact .inr (.inr h)
      · rintro (h | rfl | h)
        · exact .inl h
        · exact .inl hreaped
        · exact .inr h
    · rw [if_neg hreaped]
      obtain ⟨reaped, heq, hmem⟩ := ih hnodup
        ({ acc.1 with past := { acc.1.past with reaped := acc.1.past.reaped.insert j } },
          acc.2 ++ [.jobEvent acc.1.rack.ownBaseboard (.error j now .interrupted)])
      refine ⟨reaped, heq.trans ?_, ?_⟩
      · -- the mark of `j` does not matter for the others
        have hfilter : jobs.filter (!(acc.1.past.reaped.insert j).contains ·) =
            jobs.filter (!acc.1.past.reaped.contains ·) := by
          refine List.filter_congr fun k hk => ?_
          have hne : j ≠ k := fun he => hj (he ▸ hk)
          rw [Std.ExtTreeSet.contains_insert]
          simp [hne]
        have hcons : (j :: jobs).filter (!acc.1.past.reaped.contains ·) =
            j :: jobs.filter (!acc.1.past.reaped.contains ·) := by
          refine List.filter_cons_of_pos ?_
          rw [Bool.eq_false_iff.2 hreaped]
          rfl
        simp only [hcons, hfilter, List.map_cons, List.append_assoc, List.singleton_append]
      · intro jobId
        rw [hmem, Std.ExtTreeSet.contains_insert]
        simp only [Bool.or_eq_true, beq_iff_eq, compare_eq_iff_eq, List.mem_cons]
        constructor
        · rintro ((rfl | h) | h)
          · exact .inr (.inl rfl)
          · exact .inl h
          · exact .inr (.inr h)
        · rintro (h | rfl | h)
          · exact .inl (.inr h)
          · exact .inl (.inl rfl)
          · exact .inr h

theorem nodup_zombies (s : State) : s.zombies.Nodup := by
  refine List.Nodup.filter _ ?_
  refine List.Pairwise.imp ?_ s.past.zombies.distinct_toList
  intro j k hne heq
  exact hne (compare_eq_iff_eq.2 heq)

/-- The jobs that settling now declares interrupted: those a previous life left running, unless this
was said before. -/
def State.leftovers (s : State) : List JobId :=
  s.zombies.filter (!s.past.reaped.contains ·)

theorem reapZombies_eq (s : State) (now : DateTime) :
    ∃ reaped, s.reapZombies now =
        ({ s with past := { s.past with reaped } },
          s.leftovers.map fun jobId =>
            .jobEvent s.rack.ownBaseboard (.error jobId now .interrupted)) ∧
      ∀ jobId, reaped.contains jobId = true ↔
        s.past.reaped.contains jobId = true ∨ jobId ∈ s.zombies := by
  obtain ⟨reaped, heq, hmem⟩ := foldl_reapZombie now (nodup_zombies s) (s, [])
  exact ⟨reaped, heq, hmem⟩

/-- What settling now says of the boundary job, once there is a universe. -/
def State.ruling (s : State) (now : DateTime) : List JobEvent :=
  match s.past.boundary with
  | none => []
  | some boundary =>
    if s.past.adjudicated = some boundary.job ∨
        (s.history.statusOn boundary.job s.rack.ownBaseboard).isSome then []
    else State.endingEvents now boundary.job boundary.status

theorem adjudicateBoundary_eq (s : State) (now : DateTime) : s.adjudicateBoundary now =
    ({ s with past := { s.past with
        adjudicated := (s.past.boundary.map Boundary.job).or s.past.adjudicated } },
      (s.ruling now).map (.jobEvent s.rack.ownBaseboard)) := by
  unfold State.adjudicateBoundary State.ruling
  cases s.past.boundary with
  | none => rfl
  | some boundary =>
    by_cases hruled : s.past.adjudicated = some boundary.job
    · have hsame : { s.past with adjudicated := some boundary.job } = s.past := by
        rw [← hruled]
      simp only [if_pos hruled, if_pos (Or.inl hruled), Option.map_some, Option.some_or, hsame,
        List.map_nil]
    · by_cases hstatus : (s.history.statusOn boundary.job s.rack.ownBaseboard).isSome = true
      · simp only [if_neg hruled, if_pos hstatus, if_pos (Or.inr hstatus)]
        rfl
      · simp only [if_neg hruled, if_neg hstatus, if_neg (not_or.2 ⟨hruled, hstatus⟩)]
        rfl

/-- **Settling rules on the leftovers and then on the boundary job**, and remembers both. -/
theorem settle_eq (s : State) (now : DateTime) (network : Option Network) :
    ∃ reaped, s.settle now network =
        ({ s with past := { s.past with
            reaped
            adjudicated := if network.isSome then
              (s.past.boundary.map Boundary.job).or s.past.adjudicated else s.past.adjudicated } },
          (s.leftovers.map fun jobId =>
              .jobEvent s.rack.ownBaseboard (.error jobId now .interrupted)) ++
            (if network.isSome then s.ruling now else []).map (.jobEvent s.rack.ownBaseboard)) ∧
      ∀ jobId, reaped.contains jobId = true ↔
        s.past.reaped.contains jobId = true ∨ jobId ∈ s.zombies := by
  obtain ⟨reaped, heq, hmem⟩ := reapZombies_eq s now
  refine ⟨reaped, ?_, hmem⟩
  unfold State.settle
  simp only [heq, adjudicateBoundary_eq]
  split <;> simp [State.ruling, Past.boundary]

end Sush
