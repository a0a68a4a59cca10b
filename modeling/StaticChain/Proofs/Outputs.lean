import Mathlib.Data.List.Forall2
import StaticChain.Project.Build
import StaticChain.Proofs.Files
import StaticChain.Proofs.ProgramText

/-!
# What a build writes

Outputs are written one after the other, and each one replaces what its file held before. What holds after outputs
were written without an error (`Wrote`) is preserved by every further one (`Wrote.cons`): each output has a file,
and a file has the content of the last output that leads to it. A build that gives no errors has compiled all its
inputs and written their outputs (`exists_wrote_of_buildFiles`), so none is lost exactly if outputs that lead to the
same file have the same content (`build_outputs`). Inputs with the same name and one output directory have outputs
that lead to the same file (`build_loses_output`).
-/

namespace StaticChain

/-! ## Operations on a workspace -/

section

variable {α β : Type} {w w' w'' : Workspace}

theorem run_bind (x : StateM Workspace α) (f : α → StateM Workspace β) (w : Workspace) :
    (x >>= f).run w = (f (x.run w).1).run (x.run w).2 := rfl

namespace Workspace

/-- Paths start from the same directory, and everything that was there still is. -/
structure Grows (w w' : Workspace) : Prop where
  directory_eq : w'.directory = w.directory
  extends_files : w.files.Extends w'.files

theorem Grows.refl (w : Workspace) : Grows w w := ⟨rfl, .refl _⟩

theorem Grows.trans (h : Grows w w') (h' : Grows w' w'') : Grows w w'' :=
  ⟨h'.directory_eq.trans h.directory_eq, h.extends_files.trans h'.extends_files⟩

theorem grows_makeDirectory (w : Workspace) (path : String) :
    Grows w ((Host.makeDirectory path : StateM Workspace _).run w).2 := by
  change Grows w (w.change (w.files.makeDirectory w.directory path)).2
  cases hmake : w.files.makeDirectory w.directory path with
  | ok files => exact ⟨rfl, FileTree.extends_of_makeDirectory hmake⟩
  | error e => exact .refl w

theorem orThere_run (path : String) (result : Except FileError Unit) (w : Workspace) :
    ((Host.makeFirst.orThere path result : StateM Workspace _).run w).2 = w := by
  cases result with
  | ok u => rfl
  | error e =>
    rw [Host.makeFirst.orThere, run_bind]
    cases ((Host.isDirectory path : StateM Workspace Bool).run w).1 <;> rfl

theorem grows_makeFirst (paths : List String) (w : Workspace) :
    Grows w ((Host.makeFirst paths : StateM Workspace _).run w).2 := by
  induction paths generalizing w with
  | nil => exact .refl w
  | cons path above ih =>
    rw [Host.makeFirst]
    split
    · exact .refl w
    rw [run_bind]
    have hfirst := grows_makeDirectory w path
    split
    · rw [run_bind]
      have habove := ih ((Host.makeDirectory path : StateM Workspace _).run w).2
      split
      · rw [run_bind, orThere_run]
        exact hfirst.trans (habove.trans (grows_makeDirectory ..))
      · exact hfirst.trans habove
    · rw [orThere_run]
      exact hfirst

/-- An output is written: directories are made, and then the file. -/
theorem exists_of_write {o : Output} (h : (o.write : StateM Workspace _).run w = (.ok (), w')) :
    ∃ w₁, Grows w w₁ ∧ w'.directory = w₁.directory ∧ w₁.files.write w₁.directory o.path o.content = .ok w'.files := by
  have hput : ∀ w₁ : Workspace, (Output.write.put o : StateM Workspace _).run w₁ = (.ok (), w') →
      w'.directory = w₁.directory ∧ w₁.files.write w₁.directory o.path o.content = .ok w'.files := by
    intro w₁ hrun
    change (((w₁.change (w₁.files.write w₁.directory o.path o.content)).1.mapError _,
      (w₁.change (w₁.files.write w₁.directory o.path o.content)).2) : Except Diagnostic Unit × Workspace) = _ at hrun
    cases hwrite : w₁.files.write w₁.directory o.path o.content with
    | ok files =>
      rw [hwrite] at hrun
      cases hrun
      exact ⟨rfl, rfl⟩
    | error e =>
      rw [hwrite] at hrun
      cases hrun
  unfold Output.write at h
  split at h
  · exact ⟨w, .refl w, hput w h⟩
  · exact ⟨w, .refl w, hput w h⟩
  · rename_i directory _ _
    rw [run_bind] at h
    have hgrows := grows_makeFirst (Path.ancestors directory) w
    split at h
    · cases h
    · exact ⟨_, hgrows, hput _ h⟩

end Workspace

/-! ## Outputs one after another -/

/-- The last of some outputs whose path leads to a place. -/
def Output.LastAt (w : Workspace) (place : FileTree.Place) (outputs : List Output) (o : Output) : Prop :=
  ∃ before after, outputs = before ++ o :: after ∧ w.files.resolve w.directory o.path = .ok place ∧
    ∀ o' ∈ after, w.files.resolve w.directory o'.path ≠ .ok place

/-- What holds after outputs were written. -/
structure Wrote (outputs : List Output) (w w' : Workspace) : Prop where
  directory_eq : w'.directory = w.directory
  keepsDirectories : w.files.KeepsDirectories w'.files
  /-- Every output has a place, -/
  resolves : ∀ o ∈ outputs, ∃ place, w'.files.resolve w'.directory o.path = .ok place
  /-- which has the content of the last output that leads there. -/
  last : ∀ (place : FileTree.Place) (o : Output), o.LastAt w' place outputs →
    w'.files.get? place = some (.file o.content)
  /-- Other places keep what they had. -/
  other : ∀ place entry, (∀ o ∈ outputs, w'.files.resolve w'.directory o.path ≠ .ok place) →
    w.files.get? place = some entry → w'.files.get? place = some entry

theorem Wrote.nil (h : w'.directory = w.directory) (hfiles : w'.files = w.files) : Wrote [] w w' := by
  refine ⟨h, by rw [hfiles]; exact .refl _, fun _ hmem => absurd hmem List.not_mem_nil, ?_, fun _ _ _ => ?_⟩
  · rintro place o ⟨before, after, heq, -⟩
    cases before <;> cases heq
  · rw [hfiles]
    exact id

/-- What was printed does not matter. -/
theorem Wrote.print {outputs : List Output} {printed : String} (h : Wrote outputs { w with printed } w') :
    Wrote outputs w w' :=
  ⟨h.directory_eq, h.keepsDirectories, h.resolves, h.last, h.other⟩

theorem Wrote.cons {o : Output} {outputs : List Output} (h : (o.write : StateM Workspace _).run w = (.ok (), w'))
    (hrest : Wrote outputs w' w'') : Wrote (o :: outputs) w w'' := by
  obtain ⟨w₁, hgrows, hdirectory, hwrite⟩ := Workspace.exists_of_write h
  obtain ⟨place, hresolve, hfile, hput⟩ := FileTree.write_eq_ok hwrite
  have hkeeps : w₁.files.KeepsDirectories w'.files := hput ▸ FileTree.keepsDirectories_put hfile o.content
  have hself : w'.files.get? place = some (.file o.content) := hput ▸ FileTree.get?_put_self hfile o.content
  have hresolve' : w''.files.resolve w''.directory o.path = .ok place := by
    rw [hrest.directory_eq, hdirectory]
    exact FileTree.resolve_mono (hkeeps.trans hrest.keepsDirectories) hresolve
  refine ⟨hrest.directory_eq.trans (hdirectory.trans hgrows.directory_eq),
    hgrows.extends_files.keepsDirectories.trans (hkeeps.trans hrest.keepsDirectories), ?_, ?_, ?_⟩
  · intro o' hmem
    rcases List.mem_cons.1 hmem with rfl | hmem
    · exact ⟨place, hresolve'⟩
    · exact hrest.resolves o' hmem
  · rintro place' o' ⟨before, after, heq, hplace', hafter⟩
    cases before with
    | nil =>
      cases heq
      cases hplace'.symm.trans hresolve'
      exact hrest.other place _ hafter hself
    | cons first before =>
      cases heq
      exact hrest.last place' o' ⟨before, after, rfl, hplace', hafter⟩
  · intro place' entry hnone hentry
    refine hrest.other place' entry (fun o' hmem => hnone o' (List.mem_cons_of_mem _ hmem)) ?_
    have hne : place' ≠ place := fun heq => hnone o List.mem_cons_self (heq ▸ hresolve')
    rw [hput]
    exact FileTree.get?_put_of_ne hne (hgrows.extends_files _ _ hentry) o.content

/-- Outputs are written without errors. -/
theorem wrote_of_writeOutputs {mode : BuildMode} {outputs : List Output}
    (h : (writeOutputs mode outputs : StateM Workspace _).run w = ([], w')) : Wrote outputs w w' := by
  induction outputs generalizing w with
  | nil =>
    cases h
    exact .nil rfl rfl
  | cons o outputs ih =>
    rw [writeOutputs, run_bind] at h
    have hwrite : (o.write : StateM Workspace _).run w =
      (((o.write : StateM Workspace _).run w).1, ((o.write : StateM Workspace _).run w).2) := rfl
    generalize ((o.write : StateM Workspace _).run w).1 = result at hwrite h
    generalize ((o.write : StateM Workspace _).run w).2 = w₁ at hwrite h
    cases result with
    | ok u =>
      refine .cons hwrite ?_
      cases hverbose : mode.verbose with
      | false =>
        rw [hverbose] at h
        exact ih h
      | true =>
        rw [hverbose] at h
        exact (ih h).print
    | error e => cases h

/-- Where outputs lead to a place, one of them is the last. -/
theorem Output.exists_lastAt {place : FileTree.Place} {outputs : List Output}
    (h : ∃ o ∈ outputs, w.files.resolve w.directory o.path = .ok place) : ∃ o : Output, o.LastAt w place outputs := by
  induction outputs with
  | nil =>
    obtain ⟨o, hmem, -⟩ := h
    exact absurd hmem List.not_mem_nil
  | cons first outputs ih =>
    by_cases hrest : ∃ o ∈ outputs, w.files.resolve w.directory o.path = .ok place
    · obtain ⟨o, before, after, rfl, hlast⟩ := ih hrest
      exact ⟨o, first :: before, after, rfl, hlast⟩
    · obtain ⟨o, hmem, hplace⟩ := h
      rcases List.mem_cons.1 hmem with rfl | hmem
      · exact ⟨o, [], outputs, rfl, hplace, fun o' hmem hplace' => hrest ⟨o', hmem, hplace'⟩⟩
      · exact absurd ⟨o, hmem, hplace⟩ hrest

theorem Output.LastAt.mem {place : FileTree.Place} {outputs : List Output} {o : Output}
    (h : o.LastAt w place outputs) : o ∈ outputs := by
  obtain ⟨before, after, rfl, -⟩ := h
  exact List.mem_append_right _ List.mem_cons_self

/-- The path of an output leads to the content of the last output with the same place. -/
theorem Wrote.exists_read {outputs : List Output} (h : Wrote outputs w w') {o : Output} (ho : o ∈ outputs) :
    ∃ (place : FileTree.Place) (o' : Output), w'.files.resolve w'.directory o.path = .ok place ∧
      o'.LastAt w' place outputs ∧ w'.files.read w'.directory o.path = .ok o'.content := by
  obtain ⟨place, hplace⟩ := h.resolves o ho
  obtain ⟨o', hlast⟩ := Output.exists_lastAt ⟨o, ho, hplace⟩
  exact ⟨place, o', hplace, hlast, FileTree.read_eq_ok hplace (h.last place o' hlast)⟩

/-- No output is lost exactly if outputs that lead to the same place have the same content. -/
theorem Wrote.read_iff {outputs : List Output} (h : Wrote outputs w w') :
    (∀ o ∈ outputs, w'.files.read w'.directory o.path = .ok o.content) ↔ ∀ o ∈ outputs, ∀ o' ∈ outputs,
      w'.files.resolve w'.directory o.path = w'.files.resolve w'.directory o'.path → o.content = o'.content := by
  constructor
  · intro hread o ho o' ho' heq
    have hsame : w'.files.read w'.directory o.path = w'.files.read w'.directory o'.path := by
      simp only [FileTree.read, heq]
    rw [hread o ho, hread o' ho'] at hsame
    exact Except.ok.inj hsame
  · intro hsame o ho
    obtain ⟨place, o', hplace, hlast, hread⟩ := h.exists_read ho
    obtain ⟨before, after, -, hplace', -⟩ := id hlast
    rw [hread, hsame o ho o' hlast.mem (hplace.trans hplace'.symm)]

/-! ## Builds -/

/-- What a program file compiles to. -/
def CompilesTo (w : Workspace) (s : Settings) (input : String) (unit : CompiledUnit) : Prop :=
  ∃ source p, w.readText input = .ok source ∧ Program.parse source = .ok p ∧ s.compile p = .ok unit

/-- Loading a program reads a file and changes nothing. -/
theorem run_loadProgram (path : String) (w : Workspace) : (loadProgram path : StateM Workspace _).run w =
    (match w.readText path with
    | .error e => .error (ProjectError.readProgram path e).toDiagnostic
    | .ok source => (Program.parse source).mapError fun e => (ProjectError.program path e).toDiagnostic, w) := by
  have hread : (Host.readText path : StateM Workspace _).run w = (w.readText path, w) := rfl
  rw [loadProgram, run_bind, hread]
  cases w.readText path <;> rfl

theorem snd_buildUnit (s : Settings) (input : String) (w : Workspace) :
    ((buildUnit s input : StateM Workspace _).run w).2 = w := by
  rw [buildUnit, run_bind, run_loadProgram]
  split
  · rfl
  · split
    · rfl
    · rfl

/-- The outputs of an input are those of what it compiles to. -/
theorem exists_unit_of_buildUnit {s : Settings} {input : String} {os : List Output}
    (h : ((buildUnit s input : StateM Workspace _).run w).1 = .ok os) :
    ∃ unit, CompilesTo w s input unit ∧ os = s.outputs input unit := by
  rw [buildUnit, run_bind, run_loadProgram] at h
  cases hread : w.readText input with
  | error e =>
    rw [hread] at h
    cases h
  | ok source =>
    rw [hread] at h
    dsimp only at h
    cases hparse : Program.parse source with
    | error e =>
      rw [hparse] at h
      cases h
    | ok p =>
      rw [hparse] at h
      dsimp only [Except.mapError] at h
      cases hcompile : s.compile p with
      | error es =>
        rw [hcompile] at h
        cases h
      | ok unit =>
        rw [hcompile] at h
        cases h
        exact ⟨unit, ⟨source, p, hread, hparse, hcompile⟩, rfl⟩

theorem run_mapM {f : α → StateM Workspace β} (hf : ∀ a w, ((f a).run w).2 = w) (l : List α) (w : Workspace) :
    (l.mapM f).run w = (l.map fun a => ((f a).run w).1, w) := by
  induction l with
  | nil => rfl
  | cons a l ih =>
    rw [List.mapM_cons, run_bind, hf, run_bind, ih]
    rfl

/-- There are outputs if there are some for every input. -/
theorem collect_eq_ok {results : List (Except (List Diagnostic) (List Output))} {outputs : List Output}
    (h : collect results = .ok outputs) :
    ∃ oss : List (List Output), results = oss.map .ok ∧ outputs = oss.flatten := by
  induction results generalizing outputs with
  | nil =>
    cases h
    exact ⟨[], rfl, rfl⟩
  | cons result results ih =>
    unfold collect at h
    split at h
    · rename_i os rest hrest
      cases h
      obtain ⟨oss, rfl, rfl⟩ := ih hrest
      exact ⟨os :: oss, rfl, rfl⟩
    · cases h
    · cases h
    · cases h

/-- Compilation fails with an error, at least. -/
theorem compile_ne_error_nil (s : Settings) (p : Program) : s.compile p ≠ .error [] := by
  have hmap : ∀ {ε α : Type} {x : Except ε α} {f : ε → List Diagnostic}, (∀ e, x = .error e → f e ≠ []) →
      x.mapError f ≠ .error [] := by
    intro ε α x f hne h
    cases x with
    | ok a => cases h
    | error e => exact hne e rfl (Except.error.inj h)
  intro h
  rcases bind_eq_error.1 h with h | ⟨n, -, h⟩
  · exact hmap (fun _ _ => List.cons_ne_nil _ _) h
  rcases bind_eq_error.1 h with h | ⟨lir, -, h⟩
  · refine hmap (fun defects hlower => ?_) h
    unfold Nesting.lower at hlower
    dsimp only at hlower
    split at hlower
    · cases hlower
    · rename_i hne
      cases hlower
      simpa using hne
  rcases bind_eq_error.1 h with h | ⟨wasm, -, h⟩
  · exact hmap (fun _ _ => List.cons_ne_nil _ _) h
  · cases h

theorem buildUnit_ne_error_nil (s : Settings) (input : String) (w : Workspace) :
    ((buildUnit s input : StateM Workspace _).run w).1 ≠ .error [] := by
  rw [buildUnit, run_bind, run_loadProgram]
  split
  · exact fun h => List.cons_ne_nil _ _ (Except.error.inj h)
  · split
    · rename_i es hcompile
      intro h
      have hnil : es = [] := List.map_eq_nil_iff.1 (Except.error.inj h)
      exact compile_ne_error_nil s _ (hnil ▸ hcompile)
    · exact fun h => nomatch h

theorem collect_ne_error_nil {results : List (Except (List Diagnostic) (List Output))}
    (h : ∀ result ∈ results, result ≠ .error []) : collect results ≠ .error [] := by
  induction results with
  | nil => exact fun h => nomatch h
  | cons result results ih =>
    have hrest := ih fun result hmem => h result (List.mem_cons_of_mem _ hmem)
    have hfirst := h result List.mem_cons_self
    unfold collect
    split
    · exact fun h => nomatch h
    · rename_i heq
      rwa [← heq]
    · exact hfirst
    · intro hnil
      exact hfirst (congrArg Except.error (List.append_eq_nil_iff.1 (Except.error.inj hnil)).1)

/-- The outputs of inputs are those of what they compile to, one by one. -/
theorem exists_units {s : Settings} {inputs : List String} {oss : List (List Output)}
    (h : inputs.map (fun input => ((buildUnit s input : StateM Workspace _).run w).1) = oss.map .ok) : ∃ units,
      List.Forall₂ (CompilesTo w s) inputs units ∧ oss = List.zipWith s.outputs inputs units := by
  induction inputs generalizing oss with
  | nil =>
    cases oss with
    | nil => exact ⟨[], .nil, rfl⟩
    | cons os oss => cases h
  | cons input inputs ih =>
    cases oss with
    | nil => cases h
    | cons os oss =>
      obtain ⟨hfirst, hrest⟩ := List.cons_eq_cons.1 h
      obtain ⟨unit, hunit, rfl⟩ := exists_unit_of_buildUnit hfirst
      obtain ⟨units, hunits, rfl⟩ := ih hrest
      exact ⟨unit :: units, .cons hunit hunits, rfl⟩

/-- A build without errors has compiled all inputs and written their outputs. -/
theorem exists_wrote_of_buildFiles {s : Settings} {mode : BuildMode} {inputs : List String}
    (hcheck : mode.check = false) (h : (buildFiles s mode inputs : StateM Workspace _).run w = ([], w')) : ∃ units,
      List.Forall₂ (CompilesTo w s) inputs units ∧ Wrote (List.zipWith s.outputs inputs units).flatten w w' := by
  have hclock : (Host.clock : StateM Workspace Nat).run w = (0, w) := rfl
  rw [buildFiles, run_bind, hclock] at h
  split at h
  · cases h
  rw [run_bind, run_mapM (snd_buildUnit s)] at h
  dsimp only at h
  cases hcollect : collect (inputs.map fun input => ((buildUnit s input : StateM Workspace _).run w).1) with
  | error es =>
    rw [hcollect] at h
    have hnil : es = [] := congrArg Prod.fst h
    refine absurd (hnil ▸ hcollect) (collect_ne_error_nil fun result hmem => ?_)
    obtain ⟨input, -, rfl⟩ := List.mem_map.1 hmem
    exact buildUnit_ne_error_nil s input w
  | ok outputs =>
    obtain ⟨oss, hoss, rfl⟩ := collect_eq_ok hcollect
    obtain ⟨units, hunits, rfl⟩ := exists_units hoss
    rw [hcollect] at h
    refine ⟨units, hunits, ?_⟩
    simp only [hcheck, Bool.false_eq_true, if_false] at h
    split at h
    · exact (wrote_of_writeOutputs h).print
    · exact wrote_of_writeOutputs h

end

/-- Inputs that compile have their outputs. -/
theorem run_buildUnit {w : Workspace} {s : Settings} {input : String} {unit : CompiledUnit}
    (h : CompilesTo w s input unit) :
    (buildUnit s input : StateM Workspace _).run w = (.ok (s.outputs input unit), w) := by
  obtain ⟨source, p, hread, hparse, hcompile⟩ := h
  rw [buildUnit, run_bind, run_loadProgram, hread]
  dsimp only
  rw [hparse]
  dsimp only [Except.mapError]
  rw [hcompile]
  rfl

theorem collect_map_ok (oss : List (List Output)) : collect (oss.map .ok) = .ok oss.flatten := by
  induction oss with
  | nil => rfl
  | cons os oss ih =>
    simp only [List.map_cons, collect, ih, List.flatten_cons]

/-- A build whose inputs all compile comes to the writing of their outputs. -/
theorem run_buildFiles {w : Workspace} {s : Settings} {mode : BuildMode} {inputs : List String}
    {units : List CompiledUnit} (hne : inputs ≠ []) (hcheck : mode.check = false) (hhide : mode.hideTimers = true)
    (h : List.Forall₂ (CompilesTo w s) inputs units) : (buildFiles s mode inputs : StateM Workspace _).run w =
      (writeOutputs mode (List.zipWith s.outputs inputs units).flatten : StateM Workspace _).run w := by
  have hclock : (Host.clock : StateM Workspace Nat).run w = (0, w) := rfl
  have hresults : (inputs.map fun input => ((buildUnit s input : StateM Workspace _).run w).1) =
      (List.zipWith s.outputs inputs units).map .ok := by
    clear hne
    induction h with
    | nil => rfl
    | cons hunit _ ih => simp only [List.map_cons, List.zipWith_cons_cons, run_buildUnit hunit, ih]
  have hempty : inputs.isEmpty = false := by simpa using hne
  rw [buildFiles, run_bind, hclock, hempty]
  simp only [Bool.false_eq_true, if_false]
  rw [run_bind, run_mapM (snd_buildUnit s), hresults, collect_map_ok]
  simp [hcheck, hhide]

/-- A build that gives no errors has compiled every input, and every output has a file, with the content of the
last output that leads to it. So no output is lost exactly if outputs that lead to the same file have the same
content. -/
theorem build_outputs {s : Settings} {mode : BuildMode} {inputs : List String} {w w' : Workspace}
    (hcheck : mode.check = false) (h : (buildFiles s mode inputs : StateM Workspace _).run w = ([], w')) : ∃ units,
      List.Forall₂ (CompilesTo w s) inputs units ∧
      let outputs := (List.zipWith s.outputs inputs units).flatten
      (∀ o ∈ outputs, ∃ (place : FileTree.Place) (o' : Output), w'.files.resolve w'.directory o.path = .ok place ∧
        o'.LastAt w' place outputs ∧ w'.files.read w'.directory o.path = .ok o'.content) ∧
      ((∀ o ∈ outputs, w'.files.read w'.directory o.path = .ok o.content) ↔ ∀ o ∈ outputs, ∀ o' ∈ outputs,
        w'.files.resolve w'.directory o.path = w'.files.resolve w'.directory o'.path → o.content = o'.content) := by
  obtain ⟨units, hunits, hwrote⟩ := exists_wrote_of_buildFiles hcheck h
  exact ⟨units, hunits, fun o ho => hwrote.exists_read ho, hwrote.read_iff⟩

/-! ## Two units in one directory -/

/-- A text that is written is read back. -/
theorem fromUTF8?_textBytes (text : String) : String.fromUTF8? ⟨(textBytes text).toArray⟩ = some text :=
  dif_pos text.isValidUTF8

theorem textBytes_injective {text text' : String} (h : textBytes text = textBytes text') : text = text' := by
  have hread := fromUTF8?_textBytes text
  rw [h, fromUTF8?_textBytes] at hread
  exact (Option.some.inj hread).symm

/-- A program whose only function returns a number. -/
def constantProgram (name : String) (x : Int64) : Program where
  declarations := #[⟨⟨0⟩, name, none, [], [],
    .function { params := [], returnType := .int, body := [.ret (some (.int x))] }⟩]
  vars := #[]

/-- Two programs in directories of their own. -/
def twoUnits (name : String) : Workspace where
  files := ⟨[(["a"], .directory), (["b"], .directory),
    (["a", "unit.json"], .file (textBytes (constantProgram "first" 1).text)),
    (["b", name], .file (textBytes (constantProgram "second" 2).text))]⟩

/-- Reports of low-level modules are put into one directory. -/
def collected : Settings := { outputDir := some "out", dumps := { lir := true } }

theorem parse_constantProgram {name : String} {x : Int64}
    (hdepth : (constantProgram name x).toJson.depth ≤ Program.maxNesting) :
    Program.parse (constantProgram name x).text = .ok (constantProgram name x) := by
  have hcheck : (constantProgram name x).check = .ok () := rfl
  have hread := Json.parse?_pretty (constantProgram name x).integral_toJson
  have hvalue := Program.readsAs_toJson hcheck (Nat.succ_le_of_lt (by decide)) (Nat.zero_le _) Program.maxNesting
  rw [if_pos hdepth] at hvalue
  simp only [Program.parse, Program.text, hread, Program.ofJson, hvalue, hcheck]

/-- The only output is the report of the low-level module. -/
theorem outputs_collected {p : Program} {unit : CompiledUnit} (h : collected.compile p = .ok unit)
    {input path : String} (hpath : Path.join "out" ((Path.fileName? input).elim "unit" Path.stem ++ ".lir") = path) :
    collected.outputs input unit = [⟨path, textBytes unit.lir.text⟩] := by
  obtain ⟨n, -, h⟩ := bind_eq_ok.1 h
  obtain ⟨lir, -, h⟩ := bind_eq_ok.1 h
  obtain ⟨_, ⟨⟩, h⟩ := bind_eq_ok.1 h
  cases h
  subst hpath
  rfl

/-- What a program compiles to, if it does. -/
def unitOf (p : Program) : CompiledUnit := (collected.compile p).toOption.getD default

theorem compile_eq_unitOf {p : Program} (h : (collected.compile p).isOk = true) :
    collected.compile p = .ok (unitOf p) := by
  obtain ⟨unit, hunit⟩ := exists_of_isOk h
  rw [unitOf, hunit]
  rfl

/-- A program file of the workspace compiles to what its program compiles to. -/
theorem compilesTo_of_read {w : Workspace} {input name : String} {x : Int64} (place : FileTree.Place)
    (hresolve : w.files.resolve w.directory input = .ok place)
    (hget : w.files.get? place = some (.file (textBytes (constantProgram name x).text)))
    (hdepth : (constantProgram name x).toJson.depth ≤ Program.maxNesting)
    (hcompile : (collected.compile (constantProgram name x)).isOk = true) :
    CompilesTo w collected input (unitOf (constantProgram name x)) := by
  refine ⟨_, _, ?_, parse_constantProgram hdepth, compile_eq_unitOf hcompile⟩
  simp only [Workspace.readText, FileTree.read_eq_ok hresolve hget, bind, Except.bind, fromUTF8?_textBytes]

theorem compilesTo_first (name : String) :
    CompilesTo (twoUnits name) collected "a/unit.json" (unitOf (constantProgram "first" 1)) :=
  compilesTo_of_read ["a", "unit.json"] rfl rfl (by decide +kernel) (by decide +kernel)

theorem compilesTo_second {name input : String}
    (hresolve : (twoUnits name).files.resolve [] input = .ok ["b", name])
    (hget : (twoUnits name).files.get? ["b", name] = some (.file (textBytes (constantProgram "second" 2).text))) :
    CompilesTo (twoUnits name) collected input (unitOf (constantProgram "second" 2)) :=
  compilesTo_of_read ["b", name] hresolve hget (by decide +kernel) (by decide +kernel)

/-- Both programs are built. -/
theorem run_twoUnits (name input : String) (hresolve : (twoUnits name).files.resolve [] input = .ok ["b", name])
    (hget : (twoUnits name).files.get? ["b", name] = some (.file (textBytes (constantProgram "second" 2).text)))
    (hwrite : ((writeOutputs { hideTimers := true } (List.zipWith collected.outputs ["a/unit.json", input]
      [unitOf (constantProgram "first" 1), unitOf (constantProgram "second" 2)]).flatten : StateM Workspace _).run
        (twoUnits name)).1.isEmpty = true) :
    ∃ w', (buildFiles collected { hideTimers := true } ["a/unit.json", input] : StateM Workspace _).run
        (twoUnits name) = ([], w') ∧
      (writeOutputs { hideTimers := true } (List.zipWith collected.outputs ["a/unit.json", input]
        [unitOf (constantProgram "first" 1), unitOf (constantProgram "second" 2)]).flatten : StateM Workspace _).run
          (twoUnits name) = ([], w') := by
  have hunits : List.Forall₂ (CompilesTo (twoUnits name) collected) ["a/unit.json", input]
      [unitOf (constantProgram "first" 1), unitOf (constantProgram "second" 2)] :=
    .cons (compilesTo_first name) (.cons (compilesTo_second hresolve hget) .nil)
  rw [run_buildFiles (by simp) rfl rfl hunits]
  exact ⟨_, Prod.ext (List.isEmpty_iff.1 hwrite) rfl, Prod.ext (List.isEmpty_iff.1 hwrite) rfl⟩

/-- Two programs with different names are built, and every output has a file. -/
theorem build_outputs_two : ∃ w' units, BuildMode.check { hideTimers := true } = false ∧
    (buildFiles collected { hideTimers := true } ["a/unit.json", "b/other.json"] : StateM Workspace _).run
      (twoUnits "other.json") = ([], w') ∧
    List.Forall₂ (CompilesTo (twoUnits "other.json") collected) ["a/unit.json", "b/other.json"] units ∧
    ∀ o ∈ (List.zipWith collected.outputs ["a/unit.json", "b/other.json"] units).flatten, ∃ content,
      w'.files.read w'.directory o.path = .ok content := by
  obtain ⟨w', hrun, -⟩ := run_twoUnits "other.json" "b/other.json" rfl rfl (by decide +kernel)
  obtain ⟨units, hunits, hread, -⟩ := build_outputs rfl hrun
  refine ⟨w', units, rfl, hrun, hunits, fun o ho => ?_⟩
  obtain ⟨_, o', -, -, hcontent⟩ := hread o ho
  exact ⟨o'.content, hcontent⟩

/-- Two programs with the same name are written to the same file without an error, and the first output is lost. -/
theorem build_loses_output : ∃ w' unit o,
    (buildFiles collected { hideTimers := true } ["a/unit.json", "b/unit.json"] : StateM Workspace _).run
      (twoUnits "unit.json") = ([], w') ∧
    CompilesTo (twoUnits "unit.json") collected "a/unit.json" unit ∧ o ∈ collected.outputs "a/unit.json" unit ∧
    w'.files.read w'.directory o.path ≠ .ok o.content := by
  obtain ⟨w', hrun, hwritten⟩ := run_twoUnits "unit.json" "b/unit.json" rfl rfl (by decide +kernel)
  have hfirst : collected.outputs "a/unit.json" (unitOf (constantProgram "first" 1)) =
      [⟨"out/unit.lir", textBytes (unitOf (constantProgram "first" 1)).lir.text⟩] :=
    outputs_collected (compile_eq_unitOf (by decide +kernel)) (by decide +kernel)
  have hsecond : collected.outputs "b/unit.json" (unitOf (constantProgram "second" 2)) =
      [⟨"out/unit.lir", textBytes (unitOf (constantProgram "second" 2)).lir.text⟩] :=
    outputs_collected (compile_eq_unitOf (by decide +kernel)) (by decide +kernel)
  have hne : (unitOf (constantProgram "first" 1)).lir.text ≠ (unitOf (constantProgram "second" 2)).lir.text := by
    decide +kernel
  simp only [List.zipWith_cons_cons, List.zipWith_nil_left, hfirst, hsecond] at hwritten
  refine ⟨w', _, _, hrun, compilesTo_first _, hfirst ▸ List.mem_singleton_self _, fun hread => hne ?_⟩
  -- Both outputs lead to the same place, which has the content of the second one.
  have hwrote := wrote_of_writeOutputs hwritten
  obtain ⟨place, hplace⟩ := hwrote.resolves _ List.mem_cons_self
  have hlast := hwrote.last place ⟨"out/unit.lir", textBytes (unitOf (constantProgram "second" 2)).lir.text⟩
    ⟨[_], [], rfl, hplace, fun _ hmem => absurd hmem List.not_mem_nil⟩
  exact textBytes_injective (Except.ok.inj (hread.symm.trans (FileTree.read_eq_ok hplace hlast)))

end StaticChain
