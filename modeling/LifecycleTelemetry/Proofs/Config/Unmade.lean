import LifecycleTelemetry.Proofs.Config.Reachable

/-!
# Directories that cannot be made

Making directories touches no file. Where it fails, the directory that was wanted is not there, for a
directory lies in its parent, and one of those before it could not be made. What was made on the way does
not help: trying once more fails once more.
-/

namespace LifecycleTelemetry

open Failure (SystemError)

namespace FileTree

variable {t u v : FileTree}

/-! ## More directories, the same files -/

/-- A tree that differs from another one by having more directories. -/
structure Widened (t u : FileTree) : Prop where
  extending : t.Extends u
  file : ∀ (location : List String) (node : FileNode), node ≠ .directory →
    (u.node? location = some node ↔ t.node? location = some node)
  readOnly : u.readOnly = t.readOnly
  jam : u.jam = t.jam

namespace Widened

theorem refl
    (t : FileTree) :
    t.Widened t where
  extending := ⟨fun _ h => h, fun _ h => h⟩
  file := fun _ _ _ => Iff.rfl
  readOnly := rfl
  jam := rfl

theorem trans
    (h₁ : t.Widened u)
    (h₂ : u.Widened v) :
    t.Widened v where
  extending :=
    ⟨fun l h => h₂.extending.directory l (h₁.extending.directory l h),
      fun l h => h₂.extending.occupied l (h₁.extending.occupied l h)⟩
  file := fun l node hnode => (h₂.file l node hnode).trans (h₁.file l node hnode)
  readOnly := h₂.readOnly.trans h₁.readOnly
  jam := h₂.jam.trans h₁.jam

end Widened

theorem widened_of_makeDirectory
    {path : String}
    (h : t.makeDirectory path = .ok u) :
    t.Widened u := by
  unfold makeDirectory at h
  split at h
  · cases h
  simp only [bind, Except.bind] at h
  split at h
  · cases h
  rename_i middle _
  split at h
  · cases h
  split at h
  · cases h
  split at h
  · cases h
  rename_i hfree
  split at h
  · cases h
  cases h
  have hnew : t.node? (middle ++ [(splitLast path).2]) = none := by simpa using hfree
  refine ⟨extends_put t (by simp) fun _ => rfl, fun location node hnode => ?_, rfl, rfl⟩
  rw [node?_put t _ location _ (by simp)]
  split
  · rename_i hsame
    simp [hsame, hnew, hnode.symm]
  · exact Iff.rfl

/-- Nothing is made in a tree that can only be read. -/
theorem makeDirectory_of_readOnly
    {path : String}
    (h : t.readOnly = true) :
    t.makeDirectory path ≠ .ok u := by
  intro hmade
  unfold makeDirectory at hmade
  split at hmade
  · cases hmade
  simp only [bind, Except.bind, h, if_true] at hmade
  repeat' split at hmade
  all_goals cases hmade

/-- Whether or not they can all be made, making directories comes to making some, one after the other. -/
theorem makeAll_related
    {motive : FileTree → FileTree → Prop}
    (refl : ∀ t, motive t t)
    (trans : ∀ t u v, motive t u → motive u v → motive t v)
    (made : ∀ t u path, t.makeDirectory path = .ok u → motive t u)
    (t : FileTree)
    (paths : List String) :
    motive t (t.makeAll paths).1 := by
  fun_induction makeAll t paths with
  | case1 => exact refl t
  | case2 path before hempty => exact refl t
  | case3 path before hempty u hmade => exact made t u path hmade
  | case4 path before hempty u fault hbefore hmissing ih =>
      rw [hbefore] at ih
      exact ih
  | case5 path before hempty u hbefore v hmade hmissing ih =>
      rw [hbefore] at ih
      exact trans t u v ih (made u v path hmade)
  | case6 path before hempty u hbefore fault hfailed hthere hmissing ih =>
      rw [hbefore] at ih
      exact ih
  | case7 path before hempty u hbefore fault hfailed hthere hmissing ih =>
      rw [hbefore] at ih
      exact ih
  | case8 path before hempty fault hfailed hother hthere => exact refl t
  | case9 path before hempty fault hfailed hother hthere => exact refl t

/-- There are no more than directories made. -/
theorem widened_makeAll
    (t : FileTree)
    (paths : List String) :
    t.Widened (t.makeAll paths).1 :=
  makeAll_related .refl (fun _ _ _ => .trans) (fun _ _ _ => widened_of_makeDirectory) t paths

theorem makeAll_of_readOnly
    (h : t.readOnly = true)
    (paths : List String) :
    (t.makeAll paths).1 = t := by
  refine makeAll_related (motive := fun t u => t.readOnly = true → u = t) (fun _ _ => rfl)
    (fun t u v htu huv hread => ?_) (fun t u path hmade hread => ?_) t paths h
  · obtain rfl := htu hread
    exact huv hread
  · exact absurd hmade (makeDirectory_of_readOnly hread)

/-! ## Failing and trying again -/

/-- How making the directory of a path, with those before it, can fail: at once, on the way to it, or when
those before it are there. -/
theorem makeAll_eq_error
    {path : String}
    {before : List String}
    {fault : SystemError}
    (h : t.makeAll (path :: before) = (u, .error fault)) :
    path.isEmpty = false ∧
      ((u = t ∧ u.isDirectory path = false) ∨
        (∃ earlier : SystemError, t.makeAll before = (u, .error earlier)) ∨
        (t.makeAll before = (u, .ok ()) ∧ (∀ v, u.makeDirectory path ≠ .ok v) ∧
          u.isDirectory path = false)) := by
  unfold makeAll at h
  split at h
  · cases h
  rename_i hempty
  refine ⟨by simpa using hempty, ?_⟩
  split at h
  · cases h
  split at h
  · split at h
    · rename_i hbefore
      cases h
      exact Or.inr (Or.inl ⟨_, hbefore⟩)
    · rename_i hbefore
      split at h
      · cases h
      rename_i hagain
      split at h
      · cases h
      rename_i hthere
      cases h
      exact Or.inr (Or.inr ⟨hbefore, by simp [hagain], by simpa using hthere⟩)
  · split at h
    · cases h
    rename_i hthere
    cases h
    exact Or.inl ⟨rfl, by simpa using hthere⟩

/-- How it can succeed. -/
theorem makeAll_eq_ok
    {path : String}
    {before : List String}
    (hempty : path.isEmpty = false)
    (h : t.makeAll (path :: before) = (v, .ok ())) :
    t.makeDirectory path = .ok v ∨ t.isDirectory path = true ∨
      ∃ u : FileTree, t.makeAll before = (u, .ok ()) ∧
        (u.makeDirectory path = .ok v ∨ u.isDirectory path = true) := by
  rw [makeAll, hempty] at h
  simp only [Bool.false_eq_true, if_false] at h
  split at h
  · rename_i hmade
    cases h
    exact Or.inl hmade
  split at h
  · split at h
    · cases h
    rename_i hbefore
    split at h
    · rename_i hmade
      cases h
      exact Or.inr (Or.inr ⟨_, hbefore, Or.inl hmade⟩)
    split at h
    · exact Or.inr (Or.inr ⟨_, hbefore, Or.inr ‹_›⟩)
    · cases h
  · split at h
    · exact Or.inr (Or.inl ‹_›)
    · cases h

/-- Behind a path in the list of its ancestors stand the ancestors of its parent, if anything does. -/
theorem ancestors_go_cases
    (fuel : Nat)
    (path : String) :
    Path.ancestors.go fuel path = [path] ∨
      ∃ (less : Nat) (parent : String), less < fuel ∧ Path.parent? path = some parent ∧
        Path.ancestors.go fuel path = path :: Path.ancestors.go less parent := by
  cases fuel with
  | zero => exact Or.inl rfl
  | succ less =>
      cases hparent : Path.parent? path with
      | none => exact Or.inl (by rw [Path.ancestors.go, hparent])
      | some parent =>
          exact Or.inr ⟨less, parent, less.lt_succ_self, rfl, by rw [Path.ancestors.go, hparent]⟩

theorem ancestors_go_eq_cons
    (fuel : Nat)
    (path : String) :
    ∃ before : List String, Path.ancestors.go fuel path = path :: before := by
  rcases ancestors_go_cases fuel path with hlist | ⟨less, parent, -, -, hlist⟩
  · exact ⟨_, hlist⟩
  · exact ⟨_, hlist⟩

/-- Where there is no parent there is no directory, and none can be made. -/
theorem unreachable_of_parent?
    {path parent : String}
    (hparent : Path.parent? path = some parent)
    (hempty : parent.isEmpty = false)
    (h : t.isDirectory parent = false) :
    t.isDirectory path = false ∧ ∀ v, t.makeDirectory path ≠ .ok v := by
  constructor
  · cases hthere : t.isDirectory path with
    | false => rfl
    | true => exact absurd (isDirectory_parent? hthere hparent hempty) (by simp [h])
  · intro v hmade
    exact absurd (isDirectory_parent?_of_makeDirectory hmade hparent hempty) (by simp [h])

/-- What has been made need not be made again. -/
theorem makeAll_ancestors_again
    {fuel : Nat}
    {path : String}
    (h : t.makeAll (Path.ancestors.go fuel path) = (u, .ok ())) :
    u.makeAll (Path.ancestors.go fuel path) = (u, .ok ()) := by
  obtain ⟨before, hlist⟩ := ancestors_go_eq_cons fuel path
  rw [hlist] at h ⊢
  cases hempty : path.isEmpty with
  | true => simp [makeAll, hempty]
  | false => exact makeAll_of_isDirectory (isDirectory_of_makeAll hempty h) before

/-- A directory that could not be made, with its ancestors, is not there, and cannot be made another
time. -/
theorem unmade_of_makeAll
    {fuel : Nat}
    {path : String}
    {fault : SystemError}
    (h : t.makeAll (Path.ancestors.go fuel path) = (u, .error fault)) :
    u.isDirectory path = false ∧ ∀ v, u.makeAll (Path.ancestors.go fuel path) ≠ (v, .ok ()) := by
  induction fuel using Nat.strongRecOn generalizing path t u fault with
  | ind fuel ih =>
  have hsame : u = t → ∀ v, u.makeAll (Path.ancestors.go fuel path) ≠ (v, .ok ()) := by
    rintro rfl v hagain
    rw [h] at hagain
    cases hagain
  rcases ancestors_go_cases fuel path with hlist | ⟨less, parent, hless, hparent, hlist⟩
  · rw [hlist] at h
    obtain ⟨-, ⟨hu, hmissing⟩ | ⟨earlier, hbefore⟩ | ⟨hbefore, -, hmissing⟩⟩ :=
      makeAll_eq_error h
    · exact ⟨hmissing, hsame hu⟩
    · cases hbefore
    · cases hbefore
      exact ⟨hmissing, hsame rfl⟩
  · rw [hlist] at h
    obtain ⟨hempty, ⟨hu, hmissing⟩ | ⟨earlier, hbefore⟩ | ⟨hbefore, hunmade, hmissing⟩⟩ :=
      makeAll_eq_error h
    · exact ⟨hmissing, hsame hu⟩
    · -- the parent is not there either, so nothing behind it can be
      obtain ⟨hgone, hnever⟩ := ih less hless hbefore
      have hproper : parent.isEmpty = false := by
        obtain ⟨_, hancestors⟩ := ancestors_go_eq_cons less parent
        rw [hancestors] at hbefore
        exact (makeAll_eq_error hbefore).1
      obtain ⟨hmissing, hunmade⟩ := unreachable_of_parent? hparent hproper hgone
      refine ⟨hmissing, fun v hagain => ?_⟩
      rw [hlist] at hagain
      rcases makeAll_eq_ok hempty hagain with hmade | hthere | ⟨w, hearlier, -⟩
      · exact hunmade v hmade
      · exact absurd hthere (by simp [hmissing])
      · exact hnever w hearlier
    · -- the parent is there, and will not be made again
      refine ⟨hmissing, fun v hagain => ?_⟩
      rw [hlist] at hagain
      rcases makeAll_eq_ok hempty hagain with hmade | hthere | ⟨w, hearlier, hlater⟩
      · exact hunmade v hmade
      · exact absurd hthere (by simp [hmissing])
      · rw [makeAll_ancestors_again hbefore] at hearlier
        cases hearlier
        rcases hlater with hmade | hthere
        · exact hunmade v hmade
        · exact absurd hthere (by simp [hmissing])

end FileTree
end LifecycleTelemetry
