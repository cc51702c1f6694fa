import Kfx.Proofs.Files.Tree
import Kfx.Proofs.Log

/-!
# What directories and files do to a tree

What making directories and writing files does to a whole tree. No directory is moved or removed, so
a path that leads to a location still leads there, and a location holds the file that was last
written to it. If directories cannot be made for a path, there is none at that path.
-/
namespace Kfx.FileTree

open Kfx.Path

variable {t t₁ t' : FileTree} {X : Location} {path : String} {bytes : List UInt8}

theorem isDirectory_iff : t.isDirectory path = true ↔ ∃ X, t.locate path = .found X .directory := by
  unfold isDirectory find
  cases t.locate path with
  | free X => simp
  | fault f => simp
  | found X node =>
    cases node with
    | directory => simp
    | file bytes => cases endsInSlash path <;> simp

/-- Where a file is, another can be written. -/
theorem exists_write_of_readBytes {old : List UInt8} (h : t.readBytes path = .ok old)
    (bytes : List UInt8) : ∃ t', t.write path bytes = .ok t' := by
  obtain ⟨hslash, X, hfound⟩ := readBytes_eq_ok.mp h
  refine ⟨t.put X (.file bytes), ?_⟩
  rw [write, hslash, if_neg Bool.false_ne_true, hfound]

theorem locate_of_lookup {node : FileNode} (h : (t.locate path).location? = some X)
    (hnode : t.lookup X = some node) : t.locate path = .found X node := by
  rw [(locate_eq_of_location? h).2 t (fun _ hdir => hdir) rfl, walk, hnode]

theorem location?_of_keepsDirectories (hdirs : t.KeepsDirectories t') (hhere : t'.here = t.here)
    (h : (t.locate path).location? = some X) : (t'.locate path).location? = some X := by
  rw [(locate_eq_of_location? h).2 t' hdirs hhere, walk]
  split <;> rfl

/-- A path that can be followed at all: it has no zero byte and is neither too long nor empty. -/
structure CanFollow (path : String) : Prop where
  noZero : '\x00' ∉ path.toList
  short : path.utf8ByteSize < pathLimit
  notEmpty : path ≠ ""

theorem locate_of_canFollow (h : CanFollow path) :
    t.locate path = t.walk (t.origin path) (steps path) := by
  have hzero : ¬ path.toList.contains '\x00' = true := by simpa using h.noZero
  have hempty : ¬ path.isEmpty = true := by simpa using h.notEmpty
  rw [locate, follow, if_neg hzero, if_neg (Nat.not_le.mpr h.short), if_neg hempty]
  rfl

theorem canFollow_of_location? (h : (t.locate path).location? = some X) : CanFollow path := by
  unfold locate follow at h
  split at h
  · cases h
  · next hzero =>
    split at h
    · cases h
    · next hshort =>
      split at h
      · cases h
      · next hempty =>
        exact ⟨by simpa using hzero, Nat.not_le.mp hshort, by simpa using hempty⟩

/-- A path that leads somewhere starts with directories. -/
theorem isDirectory_of_append {dir rest : String} {more : List String} (hpath : path = dir ++ rest)
    (hdir : dir ≠ "") (hsteps : steps path = steps dir ++ more)
    (h : (t.locate path).location? = some X)
    (hlast : more = [] → t.lookup X = some .directory) : t.isDirectory dir = true := by
  have hfollow := canFollow_of_location? h
  have hfollowDir : CanFollow dir := by
    refine ⟨fun hmem => hfollow.noZero ?_, ?_, hdir⟩
    · simp [hpath, hmem]
    · have hshort := hfollow.short
      rw [hpath, String.utf8ByteSize_append] at hshort
      omega
  have horigin : t.origin path = t.origin dir := by
    cases hchars : dir.toList with
    | nil => exact absurd (String.toList_eq_nil_iff.mp hchars) hdir
    | cons c cs => simp [origin, isAbsolute, hpath, hchars]
  rw [locate_of_canFollow hfollow, hsteps, horigin] at h
  refine isDirectory_iff.mpr ⟨along (t.origin dir) (steps dir), ?_⟩
  rw [locate_of_canFollow hfollowDir, walk_of_append h hlast]

/-- A name that leads somewhere is in a directory. -/
theorem isDirectory_of_join {base name : String} (hbase : base ≠ "") (hname : name ≠ "")
    (hrelative : isAbsolute name = false)
    (h : (t.locate (join base name)).location? = some X) : t.isDirectory base = true := by
  have hinside : ∃ slash, inside base = base ++ slash := by
    unfold inside
    rw [if_neg (by simpa using hbase)]
    split
    · exact ⟨"", by simp⟩
    · exact ⟨"/", rfl⟩
  obtain ⟨slash, hslash⟩ := hinside
  have hpath : join base name = base ++ (slash ++ name) := by
    rw [join_eq base hrelative, hslash, String.append_assoc]
  have hsteps : steps (join base name) = steps base ++ steps name := by
    rw [steps_join hrelative, stepsInto_eq]
  refine isDirectory_of_append hpath hbase hsteps h fun hnil => ?_
  exact absurd hnil (steps_ne_nil (by simpa using hname) hrelative)

/-- The directory above a directory is one too. -/
theorem isDirectory_parent? {above : String} (h : t.isDirectory path = true)
    (habove : parent? path = some above) (hne : above ≠ "") : t.isDirectory above = true := by
  rcases parent?_eq_some habove with hempty | ⟨rfl, _⟩ | ⟨_, rest, hpath⟩
  · exact absurd hempty hne
  · rfl
  · obtain ⟨X, hfound⟩ := isDirectory_iff.mp h
    have hwhole : path = above ++ String.ofList ('/' :: rest) := by
      apply String.toList_inj.mp
      simpa using hpath
    have hsteps : steps path = steps above ++ steps (String.ofList rest) := by
      simp only [steps, hpath, pieces_slash, List.map_append, List.filter_append,
        String.toList_ofList]
    refine isDirectory_of_append hwhole hne hsteps (by rw [hfound]; rfl) fun _ => ?_
    exact lookup_of_found hfound

/-- Directories are made and files are written, one after another and none in vain. The files are
listed in order, with their bytes. -/
inductive Changes : FileTree → List (String × List UInt8) → FileTree → Prop
  | nil {t : FileTree} : Changes t [] t
  | directory {t t₁ t' : FileTree} {path : String} {ws : List (String × List UInt8)}
      (hmake : t.makeDirectory path = .ok t₁) (hrest : Changes t₁ ws t') : Changes t ws t'
  | file {t t₁ t' : FileTree} {path : String} {bytes : List UInt8} {ws : List (String × List UInt8)}
      (hwrite : t.write path bytes = .ok t₁) (hrest : Changes t₁ ws t') :
      Changes t ((path, bytes) :: ws) t'

/-- The bytes that were last written to a location. -/
def lastAt? (t : FileTree) (ws : List (String × List UInt8)) (X : Location) :
    Option (List UInt8) :=
  (ws.filter fun w => (t.locate w.1).location? = some X).getLast?.map Prod.snd

theorem lastAt?_cons (t : FileTree) (w : String × List UInt8) (ws : List (String × List UInt8))
    (X : Location) : t.lastAt? (w :: ws) X =
      if (t.locate w.1).location? = some X then some ((t.lastAt? ws X).getD w.2)
      else t.lastAt? ws X := by
  unfold lastAt?
  by_cases hw : (t.locate w.1).location? = some X
  · rw [List.filter_cons_of_pos (by simpa using hw), if_pos hw, List.getLast?_cons]
    cases (ws.filter fun w => (t.locate w.1).location? = some X).getLast? <;> rfl
  · rw [List.filter_cons_of_neg (by simpa using hw), if_neg hw]

theorem lastAt?_eq_none {ws : List (String × List UInt8)} : t.lastAt? ws X = none ↔
    ∀ path written, (path, written) ∈ ws → (t.locate path).location? ≠ some X := by
  simp [lastAt?]

/-- The last of the files written to a location, and where it stands among them all. -/
theorem lastAt?_eq_some {ws : List (String × List UInt8)} (h : t.lastAt? ws X = some bytes) :
    ∃ before path after, ws = before ++ (path, bytes) :: after ∧
      (t.locate path).location? = some X ∧ t.lastAt? after X = none := by
  induction ws with
  | nil => cases h
  | cons w ws ih =>
    rw [lastAt?_cons] at h
    cases hlast : t.lastAt? ws X with
    | some later =>
      rw [hlast] at h ih
      have hlater : later = bytes := by
        split at h
        · exact Option.some.inj h
        · exact Option.some.inj h
      obtain ⟨before, path, after, rfl, hpath⟩ := ih (by rw [hlater])
      exact ⟨w :: before, path, after, rfl, hpath⟩
    | none =>
      rw [hlast] at h
      split at h
      · next hw =>
        cases h
        exact ⟨[], w.1, ws, rfl, hw, hlast⟩
      · cases h

namespace Changes

variable {ws ws' : List (String × List UInt8)}

theorem trans (h : t.Changes ws t₁) (h' : t₁.Changes ws' t') : t.Changes (ws ++ ws') t' := by
  induction h with
  | nil => exact h'
  | directory hmake _ ih => exact .directory hmake (ih h')
  | file hwrite _ ih => exact .file hwrite (ih h')

theorem here (h : t.Changes ws t') : t'.here = t.here := by
  induction h with
  | nil => rfl
  | directory hmake _ ih =>
    obtain ⟨X, _, _, rfl⟩ := makeDirectory_eq_ok hmake
    exact ih
  | file hwrite _ ih =>
    obtain ⟨_, X, _, _, rfl⟩ := write_eq_ok hwrite
    exact ih

theorem wellFormed (h : t.Changes ws t') (ht : t.WellFormed) : t'.WellFormed := by
  induction h with
  | nil => exact ht
  | directory hmake _ ih =>
    obtain ⟨X, hlocation, hfree, rfl⟩ := makeDirectory_eq_ok hmake
    exact ih (ht.put hlocation (by simp [Takes, hfree]))
  | file hwrite _ ih =>
    obtain ⟨_, X, hlocation, htakes, rfl⟩ := write_eq_ok hwrite
    exact ih (ht.put hlocation htakes)

theorem keepsDirectories (h : t.Changes ws t') : t.KeepsDirectories t' := by
  induction h with
  | nil => exact fun _ hdir => hdir
  | @directory t _ _ _ _ hmake _ ih =>
    obtain ⟨X, _, hfree, rfl⟩ := makeDirectory_eq_ok hmake
    have htakes : t.Takes X := by simp [Takes, hfree]
    exact fun loc hdir => ih loc (htakes.keepsDirectories loc hdir)
  | file hwrite _ ih =>
    obtain ⟨_, X, _, htakes, rfl⟩ := write_eq_ok hwrite
    exact fun loc hdir => ih loc (htakes.keepsDirectories loc hdir)

theorem location? (h : t.Changes ws t') (hX : (t.locate path).location? = some X) :
    (t'.locate path).location? = some X :=
  location?_of_keepsDirectories h.keepsDirectories h.here hX

/-- A location holds the file that was last written there, or else the file it held before. -/
theorem lookup_file (h : t.Changes ws t') : t'.lookup X = some (.file bytes) ↔
    ((t'.lastAt? ws X).map FileNode.file).or (t.lookup X) = some (.file bytes) := by
  induction h with
  | nil => rfl
  | @directory t _ t' _ ws hmake _ ih =>
    obtain ⟨Y, _, hfree, rfl⟩ := makeDirectory_eq_ok hmake
    have htakes : t.Takes Y := by simp [Takes, hfree]
    rw [ih, lookup_put htakes.ne_nil]
    by_cases hX : X = Y
    · rw [if_pos hX, hX, hfree]
      cases t'.lastAt? ws Y <;> simp
    · rw [if_neg hX]
  | file hwrite hrest ih =>
    obtain ⟨_, Y, hlocation, htakes, rfl⟩ := write_eq_ok hwrite
    have hlocation' := (Changes.file hwrite hrest).location? hlocation
    rw [ih, lookup_put htakes.ne_nil, lastAt?_cons, hlocation']
    by_cases hX : X = Y
    · rw [if_pos hX, if_pos (by rw [hX])]
      cases lastAt? _ _ X <;> rfl
    · rw [if_neg hX, if_neg (by simpa using Ne.symm hX)]

/-- A file that is there now was there before, or else it was written. -/
theorem lookup_file_cases (h : t.Changes ws t') (hfile : t'.lookup X = some (.file bytes)) :
    t.lookup X = some (.file bytes) ∨
      ∃ file, (file, bytes) ∈ ws ∧ (t'.locate file).location? = some X := by
  have hlast := h.lookup_file.mp hfile
  cases hlastAt : t'.lastAt? ws X with
  | none =>
    rw [hlastAt] at hlast
    exact Or.inl hlast
  | some last =>
    rw [hlastAt] at hlast
    cases hlast
    obtain ⟨before, file, after, rfl, hlocation, _⟩ := lastAt?_eq_some hlastAt
    exact Or.inr ⟨file, by simp, hlocation⟩

/-- A file that was there can still be read, with the bytes that came last. -/
theorem readBytes (h : t.Changes ws t') (hread : t.readBytes path = .ok bytes) :
    ∃ X, (t'.locate path).location? = some X ∧
      t'.readBytes path = .ok ((t'.lastAt? ws X).getD bytes) := by
  obtain ⟨hslash, X, hfound⟩ := readBytes_eq_ok.mp hread
  have hlocation : (t'.locate path).location? = some X := h.location? (by rw [hfound]; rfl)
  refine ⟨X, hlocation, readBytes_eq_ok.mpr ⟨hslash, X, locate_of_lookup hlocation ?_⟩⟩
  rw [h.lookup_file, lookup_of_found hfound]
  cases t'.lastAt? ws X <;> rfl

/-- Every path that was written to leads to a file, with the bytes that came last. -/
theorem readBytes_of_mem (h : t.Changes ws t') {written : List UInt8} (hw : (path, written) ∈ ws) :
    ∃ X bytes, (t'.locate path).location? = some X ∧ t'.lastAt? ws X = some bytes ∧
      t'.readBytes path = .ok bytes := by
  have hpath : endsInSlash path = false ∧ ∃ X, (t'.locate path).location? = some X := by
    induction h with
    | nil => cases hw
    | directory _ _ ih => exact ih hw
    | file hwrite hrest ih =>
      rcases List.mem_cons.mp hw with heq | hw
      · cases heq
        obtain ⟨hslash, X, hlocation, _, _⟩ := write_eq_ok hwrite
        exact ⟨hslash, X, (Changes.file hwrite hrest).location? hlocation⟩
      · exact ih hw
  obtain ⟨hslash, X, hlocation⟩ := hpath
  cases hlast : t'.lastAt? ws X with
  | none => exact absurd hlocation (lastAt?_eq_none.mp hlast path written hw)
  | some bytes =>
    refine ⟨X, bytes, hlocation, hlast, readBytes_eq_ok.mpr ⟨hslash, X, ?_⟩⟩
    exact locate_of_lookup hlocation (h.lookup_file.mpr (by rw [hlast]; rfl))

end Changes

/-- If a directory cannot be settled for, it is not there. -/
theorem settleDirectory_run (path : String) (result : Except FileFault Unit) (t : FileTree) :
    ∃ answer, (files.settleDirectory path result).run t = (answer, t) ∧
      ∀ fault, answer = .error fault → t.isDirectory path = false := by
  cases result with
  | ok _ => exact ⟨.ok (), rfl, nofun⟩
  | error fault =>
    have hcheck : (files.isDirectory path).run t = (t.isDirectory path, t) := rfl
    rw [Files.settleDirectory, run_bind_of_run hcheck]
    cases hthere : t.isDirectory path with
    | true => exact ⟨.ok (), rfl, nofun⟩
    | false => exact ⟨.error fault, rfl, fun _ _ => rfl⟩

theorem step_run_of_ok {change : FileTree → Except FileFault FileTree} {t t' : FileTree}
    (h : change t = .ok t') : (step change).run t = (.ok (), t') := by
  simp [step, StateT.run, h]

theorem step_run_of_error {change : FileTree → Except FileFault FileTree} {t : FileTree}
    {fault : FileFault} (h : change t = .error fault) :
    (step change).run t = (.error fault, t) := by
  simp [step, StateT.run, h]

theorem makeDirectory_run (path : String) (t : FileTree) :
    ∃ answer t', (files.makeDirectory path).run t = (answer, t') ∧ t.Changes [] t' ∧
      (answer = .error .missing → t'.isDirectory path = false) := by
  cases hmade : t.makeDirectory path with
  | ok t' => exact ⟨.ok (), t', step_run_of_ok hmade, .directory hmade .nil, nofun⟩
  | error fault =>
    refine ⟨.error fault, t, step_run_of_error hmade, .nil, ?_⟩
    rintro ⟨⟩
    rw [Bool.eq_false_iff]
    intro hdir
    obtain ⟨X, hfound⟩ := isDirectory_iff.mp hdir
    simp [makeDirectory, hfound] at hmade

/-- Making directories adds directories only, and where that fails there is no directory. -/
theorem makeDirectoriesWithin_run {depth : Nat} {path : String} (hdepth : path.length < depth)
    (t : FileTree) : ∃ answer t', (files.makeDirectoriesWithin depth path).run t = (answer, t') ∧
      t.Changes [] t' ∧
        ∀ fault, answer = .error fault → path ≠ "" ∧ t'.isDirectory path = false := by
  induction depth generalizing path t with
  | zero => omega
  | succ depth ih =>
    rw [Files.makeDirectoriesWithin]
    cases hempty : path.isEmpty with
    | true => exact ⟨.ok (), t, rfl, .nil, nofun⟩
    | false =>
      have hpath : path ≠ "" := by simpa using hempty
      obtain ⟨result, t₁, hmake, hadds, hmissing⟩ := makeDirectory_run path t
      rw [if_neg (by simp), run_bind_of_run hmake]
      split
      · cases habove : parent? path with
        | none => exact ⟨_, t₁, rfl, hadds, fun _ _ => ⟨hpath, hmissing rfl⟩⟩
        | some above =>
          have hshorter : above.length < depth := by
            have hlt := parent?_length_lt habove hpath
            omega
          obtain ⟨made, t₂, hrun, haddsAbove, hfailed⟩ := ih hshorter t₁
          dsimp only
          rw [run_bind_of_run hrun]
          cases made with
          | error fault =>
            obtain ⟨hne, hnone⟩ := hfailed fault rfl
            refine ⟨_, t₂, rfl, hadds.trans haddsAbove, fun _ _ => ⟨hpath, ?_⟩⟩
            rw [Bool.eq_false_iff]
            intro hdir
            rw [isDirectory_parent? hdir habove hne] at hnone
            cases hnone
          | ok _ =>
            obtain ⟨again, t₃, hagain, haddsAgain, _⟩ := makeDirectory_run path t₂
            obtain ⟨answer, hsettle, hnone⟩ := settleDirectory_run path again t₃
            refine ⟨answer, t₃, ?_, (hadds.trans haddsAbove).trans haddsAgain,
              fun fault hfault => ⟨hpath, hnone fault hfault⟩⟩
            dsimp only
            rw [run_bind_of_run hagain, hsettle]
      · obtain ⟨answer, hsettle, hnone⟩ := settleDirectory_run path result t₁
        exact ⟨answer, t₁, hsettle, hadds, fun fault hfault => ⟨hpath, hnone fault hfault⟩⟩

theorem makeDirectories_run (path : String) (t : FileTree) :
    ∃ answer t', (files.makeDirectories path).run t = (answer, t') ∧ t.Changes [] t' ∧
      ∀ fault, answer = .error fault → path ≠ "" ∧ t'.isDirectory path = false :=
  makeDirectoriesWithin_run (Nat.lt_succ_self _) t

end Kfx.FileTree
