import Ophelia.Lib.FileOps

/-!
# Ophelia.Lib.PathLookups

Lookups of a path and of the path with one more name. Where a path leads, its front leads
(`resolve_front`); a name that is no link is found where the front leads (`resolve_concat`), so a
path whose last name is no link leads to its own entry (`entry_of_resolve`).
-/

namespace FileTree

variable {ν β : Type} {view : View ν β}

/-! ### The front of a path -/

theorem walk_front {follow : List ν → List (Step ν) → Except LookupError (List ν)}
    {extra : List (Step ν)}
    (hfollow : ∀ dir steps place, follow dir (steps ++ extra) = .ok place →
      ∃ mid, follow dir steps = .ok mid)
    {dir : List ν} {steps : List (Step ν)} {place : List ν}
    (h : walk view follow dir (steps ++ extra) = .ok place) :
    ∃ mid, walk view follow dir steps = .ok mid := by
  induction steps generalizing dir with
  | nil => exact ⟨dir, rfl⟩
  | cons step rest ih =>
      cases step with
      | up => exact ih h
      | down name =>
          rw [List.cons_append, walk] at h
          rw [walk]
          cases hnode : view (dir ++ [name]) with
          | none =>
              rw [hnode] at h
              cases h
          | some node =>
              rw [hnode] at h
              have hlast : rest ++ extra = [] → rest = [] := fun hnil =>
                (List.append_eq_nil_iff.mp hnil).1
              cases node with
              | directory mode => exact ih h
              | link target =>
                  change follow dir (target ++ (rest ++ extra)) = .ok place at h
                  rw [← List.append_assoc] at h
                  exact hfollow _ _ _ h
              | regular mode content =>
                  by_cases hnil : rest ++ extra = []
                  · exact ⟨_, if_pos (hlast hnil)⟩
                  · cases (if_neg hnil).symm.trans h
              | special =>
                  by_cases hnil : rest ++ extra = []
                  · exact ⟨_, if_pos (hlast hnil)⟩
                  · cases (if_neg hnil).symm.trans h

theorem resolve_front {links : Nat} {dir : List ν} {steps extra : List (Step ν)} {place : List ν}
    (h : resolve view links dir (steps ++ extra) = .ok place) :
    ∃ mid, resolve view links dir steps = .ok mid := by
  induction links generalizing dir steps place with
  | zero => exact walk_front (fun _ _ _ hfail => by cases hfail) h
  | succ links ih =>
      have hfollow : ∀ dir steps place, resolve view links dir (steps ++ extra) = .ok place →
          ∃ mid, resolve view links dir steps = .ok mid := fun _ _ _ hnext => ih hnext
      exact walk_front hfollow h

/-! ### One more name -/

/-- Where one more name leads: below the front, unless a link stands there. -/
def NextIs (view : View ν β) (mid : List ν) (name : ν) (place : List ν) : Prop :=
  (place = mid ++ [name] ∧ (view place).isSome = true) ∨
    ∃ steps, view (mid ++ [name]) = some (.link steps)

theorem walk_next {follow : List ν → List (Step ν) → Except LookupError (List ν)} {name : ν}
    (hfollow : ∀ dir steps mid place, follow dir steps = .ok mid →
      follow dir (steps ++ [.down name]) = .ok place → NextIs view mid name place)
    {dir : List ν} {steps : List (Step ν)} {mid place : List ν}
    (hmid : walk view follow dir steps = .ok mid)
    (h : walk view follow dir (steps ++ [.down name]) = .ok place) : NextIs view mid name place := by
  induction steps generalizing dir with
  | nil =>
      obtain rfl := Except.ok.inj hmid
      rw [List.nil_append, walk] at h
      cases hnode : view (dir ++ [name]) with
      | none =>
          rw [hnode] at h
          cases h
      | some node =>
          rw [hnode] at h
          cases node with
          | link target => exact .inr ⟨target, hnode⟩
          | directory mode =>
              obtain rfl := Except.ok.inj h
              exact .inl ⟨rfl, by rw [hnode]; rfl⟩
          | regular mode content =>
              obtain rfl := Except.ok.inj h
              exact .inl ⟨rfl, by rw [hnode]; rfl⟩
          | special =>
              obtain rfl := Except.ok.inj h
              exact .inl ⟨rfl, by rw [hnode]; rfl⟩
  | cons step rest ih =>
      cases step with
      | up => exact ih hmid h
      | down first =>
          have hne : rest ++ [.down name] ≠ [] := by simp
          rw [List.cons_append, walk] at h
          rw [walk] at hmid
          cases hnode : view (dir ++ [first]) with
          | none =>
              rw [hnode] at h
              cases h
          | some node =>
              rw [hnode] at h hmid
              cases node with
              | directory mode => exact ih hmid h
              | link target =>
                  change follow dir (target ++ (rest ++ [.down name])) = .ok place at h
                  rw [← List.append_assoc] at h
                  exact hfollow _ _ _ _ hmid h
              | regular mode content => cases (if_neg hne).symm.trans h
              | special => cases (if_neg hne).symm.trans h

theorem resolve_next {links : Nat} {dir : List ν} {steps : List (Step ν)} {name : ν}
    {mid place : List ν} (hmid : resolve view links dir steps = .ok mid)
    (h : resolve view links dir (steps ++ [.down name]) = .ok place) :
    NextIs view mid name place := by
  induction links generalizing dir steps mid place with
  | zero => exact walk_next (fun _ _ _ _ hfail => by cases hfail) hmid h
  | succ links ih =>
      have hfollow : ∀ dir steps mid place, resolve view links dir steps = .ok mid →
          resolve view links dir (steps ++ [.down name]) = .ok place →
          NextIs view mid name place := fun _ _ _ _ hfirst hnext => ih hfirst hnext
      exact walk_next hfollow hmid h

theorem walk_concat {follow : List ν → List (Step ν) → Except LookupError (List ν)} {name : ν}
    {mid : List ν} {mode : Nat} (hdir : (view mid).any Node.isDirectory = true)
    (hnode : view (mid ++ [name]) = some (.directory mode))
    (hfollow : ∀ dir steps, follow dir steps = .ok mid →
      follow dir (steps ++ [.down name]) = .ok (mid ++ [name]))
    {dir : List ν} {steps : List (Step ν)} (h : walk view follow dir steps = .ok mid) :
    walk view follow dir (steps ++ [.down name]) = .ok (mid ++ [name]) := by
  induction steps generalizing dir with
  | nil =>
      obtain rfl := Except.ok.inj h
      rw [List.nil_append, walk, hnode]
      rfl
  | cons step rest ih =>
      cases step with
      | up => exact ih h
      | down first =>
          rw [walk] at h
          rw [List.cons_append, walk]
          cases hfirst : view (dir ++ [first]) with
          | none =>
              rw [hfirst] at h
              cases h
          | some node =>
              rw [hfirst] at h
              -- a file is where the front ends, so nothing stands below it
              have hfile : node.isDirectory = false → (if rest = [] then
                  (.ok (dir ++ [first]) : Except LookupError (List ν)) else .error .notDirectory) =
                    .ok mid → False := by
                intro hnot hok
                by_cases hnil : rest = []
                · rw [if_pos hnil] at hok
                  obtain rfl := Except.ok.inj hok
                  rw [hfirst] at hdir
                  exact absurd (hnot.symm.trans hdir) (by decide)
                · cases (if_neg hnil).symm.trans hok
              cases node with
              | directory mode => exact ih h
              | link target =>
                  have hnext := hfollow _ _ h
                  rw [List.append_assoc] at hnext
                  exact hnext
              | regular mode content => exact (hfile rfl h).elim
              | special => exact (hfile rfl h).elim

/-- A directory is found below the front. -/
theorem resolve_concat {links : Nat} {dir : List ν} {steps : List (Step ν)} {name : ν}
    {mid : List ν} {mode : Nat} (h : resolve view links dir steps = .ok mid)
    (hdir : (view mid).any Node.isDirectory = true)
    (hnode : view (mid ++ [name]) = some (.directory mode)) :
    resolve view links dir (steps ++ [.down name]) = .ok (mid ++ [name]) := by
  induction links generalizing dir steps with
  | zero => exact walk_concat hdir hnode (fun _ _ hfail => by cases hfail) h
  | succ links ih =>
      have hfollow : ∀ dir steps, resolve view links dir steps = .ok mid →
          resolve view links dir (steps ++ [.down name]) = .ok (mid ++ [name]) :=
        fun _ _ hok => ih hok
      exact walk_concat hdir hnode hfollow h

/-! ### Entries -/

namespace Disk

variable [DecidableEq ν] {disk : Disk ν β} {links : Nat}

theorem entry_concat {front : Path ν} {name : ν} {mid : List ν}
    (h : resolve disk.view links [] front = .ok mid) :
    disk.entry links (front ++ [.down name]) =
      if (disk.view mid).any Node.isDirectory then .ok (mid ++ [name])
      else .error .notDirectory := by
  unfold entry
  rw [List.getLast?_concat, List.dropLast_concat]
  simp only [h]
  rfl

/-- A path whose last name is no link leads to its own entry. -/
theorem entry_of_resolve {path : Path ν} {place : List ν}
    (h : resolve disk.view links [] path = .ok place)
    (hlink : (disk.entryNode links path).any Node.isLink = false) :
    disk.entry links path = .ok place := by
  rcases List.eq_nil_or_concat path with rfl | ⟨front, step, rfl⟩
  · exact h
  · rw [List.concat_eq_append] at h hlink ⊢
    cases step with
    | up =>
        unfold entry
        rw [List.getLast?_concat]
        exact h
    | down name =>
        obtain ⟨mid, hmid⟩ := resolve_front h
        have hentry : disk.entry links (front ++ [.down name]) =
            if (disk.view mid).any Node.isDirectory then .ok (mid ++ [name])
            else .error .notDirectory := entry_concat hmid
        rcases resolve_next hmid h with ⟨rfl, hsome⟩ | ⟨steps, hsteps⟩
        · obtain ⟨node, hnode⟩ := Option.isSome_iff_exists.mp hsome
          have hdir := any_isDirectory_dropLast (by simp) hnode
          rw [List.dropLast_concat] at hdir
          rw [hentry, if_pos hdir]
        · have hdir := any_isDirectory_dropLast (by simp) hsteps
          rw [List.dropLast_concat] at hdir
          unfold entryNode at hlink
          rw [hentry, if_pos hdir] at hlink
          simp only [hsteps] at hlink
          cases hlink

/-- An entry that is a directory is where the path leads. -/
theorem resolve_of_entry {path : Path ν} {place : List ν} {mode : Nat}
    (h : disk.entry links path = .ok place) (hnode : disk.view place = some (.directory mode)) :
    resolve disk.view links [] path = .ok place := by
  rcases List.eq_nil_or_concat path with rfl | ⟨front, step, rfl⟩
  · exact h
  · rw [List.concat_eq_append] at h ⊢
    cases step with
    | up =>
        unfold entry at h
        rw [List.getLast?_concat] at h
        exact h
    | down name =>
        cases hmid : resolve disk.view links [] front with
        | error e =>
            unfold entry at h
            rw [List.getLast?_concat, List.dropLast_concat] at h
            simp only [hmid] at h
            cases h
        | ok mid =>
            rw [entry_concat hmid] at h
            by_cases hdir : (disk.view mid).any Node.isDirectory = true
            · rw [if_pos hdir] at h
              obtain rfl := Except.ok.inj h
              exact resolve_concat hmid hdir hnode
            · rw [if_neg hdir] at h
              cases h

end Disk

end FileTree
