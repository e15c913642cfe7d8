import CrawlTrove.Relational.Transaction

/-!
# Forward-only migrations

The startup hook and the admin command apply the SQL files of their build that the
database has not recorded yet, each in a transaction with its own record: a script and its
record commit as one step. Several builds come and go, several processes may run this at
once, and each may die between any two steps.
-/

namespace CrawlTrove.Deployment

open Relational

/-! ## Replaying scripts -/

section Replay

variable {σ ι : Type*} (execute : ι → σ → Option σ)

/-- The effect of executing scripts one after another. -/
def replay (scripts : List ι) (s : σ) : Option σ := scripts.foldlM (fun s i => execute i s) s

@[simp] theorem replay_nil (s : σ) : replay execute [] s = some s := rfl

theorem replay_concat {scripts : List ι} {i : ι} {s s' : σ}
    (h : replay execute scripts s = some s') :
    replay execute (scripts ++ [i]) s = execute i s' := by
  unfold replay at h ⊢
  rw [List.foldlM_append, h]
  show (execute i s' >>= fun s => pure s) = execute i s'
  exact bind_pure _

end Replay

/-! ## The migration files of a build -/

/-- A directory of files, as names and texts. -/
abbrev Directory := List (List Char × String)

/-- A migration: the version that is recorded and the text of its file. -/
structure Migration where
  version : List Char
  sql : String
deriving DecidableEq, Repr

/-- One directory entry: only `*.sql` files are migrations, and the suffix is not part of
the version. -/
def migrationOf (entry : List Char × String) : Option Migration :=
  if ".sql".toList <:+ entry.1 then
    some { version := entry.1.take (entry.1.length - 4), sql := entry.2 }
  else none

/-- `_migration_files`. -/
def migrationFiles (directory : Directory) : List Migration :=
  (directory.insertionSort fun a b => a.1 ≤ b.1).filterMap migrationOf

/-- `migration_versions`. -/
def migrationVersions (directory : Directory) : List (List Char) :=
  (migrationFiles directory).map Migration.version

/-- What it means to be forward-only: a newer build keeps every file as it is, and a file
it adds is named after all of them. -/
def Extends (older newer : Directory) : Prop :=
  ∃ added : Directory, newer.Perm (older ++ added) ∧
    ∀ a ∈ added, ∀ o ∈ older, o.1 < a.1

theorem migrationFiles_extends {older newer : Directory} (hnames : (newer.map Prod.fst).Nodup)
    (h : Extends older newer) : migrationFiles older <+: migrationFiles newer := by
  obtain ⟨added, hperm, hafter⟩ := h
  let r : List Char × String → List Char × String → Prop := fun a b => a.1 ≤ b.1
  have htotal : Std.Total r := ⟨fun a b => le_total a.1 b.1⟩
  have htrans : IsTrans _ r := ⟨fun _ _ _ => le_trans⟩
  have hsorted : ((older.insertionSort r) ++ (added.insertionSort r)).Pairwise r := by
    refine List.pairwise_append.mpr
      ⟨List.pairwise_insertionSort r older, List.pairwise_insertionSort r added, ?_⟩
    intro o ho a ha
    exact (hafter a ((List.mem_insertionSort r).mp ha) o ((List.mem_insertionSort r).mp ho)).le
  have hsame : (newer.insertionSort r).Perm ((older.insertionSort r) ++ (added.insertionSort r)) :=
    (List.perm_insertionSort r newer).trans (hperm.trans
      ((List.perm_insertionSort r older).append (List.perm_insertionSort r added)).symm)
  -- names are distinct, so the order of the names leaves no choice
  have hjoin : newer.insertionSort r = (older.insertionSort r) ++ (added.insertionSort r) := by
    refine @List.Perm.eq_of_pairwise _ r _ _ ?_ (List.pairwise_insertionSort r newer) hsorted hsame
    intro a b ha hb hab hba
    have hname : a.1 = b.1 := le_antisymm hab hba
    exact List.inj_on_of_nodup_map hnames ((List.mem_insertionSort r).mp ha)
      ((List.mem_insertionSort r).mp (hsame.symm.subset hb)) hname
  refine ⟨(added.insertionSort r).filterMap migrationOf, ?_⟩
  show _ = (newer.insertionSort r).filterMap migrationOf
  rw [hjoin, List.filterMap_append]
  rfl

theorem migrationOf_injective {a b : List Char × String} {m n : Migration}
    (ha : migrationOf a = some m) (hb : migrationOf b = some n) (h : m.version = n.version) :
    a.1 = b.1 := by
  unfold migrationOf at ha hb
  split at ha <;> [skip; cases ha]
  split at hb <;> [skip; cases hb]
  rename_i hsa hsb
  obtain ⟨x, hx⟩ := hsa
  obtain ⟨y, hy⟩ := hsb
  cases ha
  cases hb
  have hlen : ".sql".toList.length = 4 := rfl
  have hxy : x = y := by
    simpa [← hx, ← hy, List.length_append, hlen] using h
  rw [← hx, ← hy, hxy]

theorem nodup_versions {directory : Directory} (hnames : (directory.map Prod.fst).Nodup) :
    (migrationVersions directory).Nodup := by
  have hsort : (directory.insertionSort fun a b => a.1 ≤ b.1).Pairwise fun a b => a.1 ≠ b.1 := by
    have hperm := List.perm_insertionSort (fun a b : List Char × String => a.1 ≤ b.1) directory
    exact List.pairwise_map.mp ((hperm.map Prod.fst).nodup_iff.mpr hnames)
  refine List.pairwise_map.mpr (List.Pairwise.filterMap migrationOf ?_ hsort)
  intro a b hab m hm n hn heq
  exact hab (migrationOf_injective hm hn heq)

/-! ## `run_migrations`, one statement at a time -/

/-- The database: what `schema_migrations` records, once the table exists, in the order of
the inserts, and everything else. -/
structure Database (σ : Type*) where
  schemaMigrations : Option (List (List Char))
  schema : σ

/-- The recorded versions. -/
def Database.recorded {σ : Type*} (db : Database σ) : List (List Char) :=
  db.schemaMigrations.getD []

/-- Where a call of `run_migrations` is: before `CREATE TABLE`, before the `SELECT`, in the
loop with the versions read and the files left, returned, or left by an exception. -/
inductive Stage
  | connected
  | created
  | applying (done : List (List Char)) (files : List Migration)
  | returned
  | raised
deriving DecidableEq, Repr

/-- A call of `run_migrations` in a process of some build. -/
structure Runner where
  directory : Directory
  stage : Stage := .connected
  applied : ℕ := 0
deriving DecidableEq, Repr

/-- The call has neither returned nor raised. -/
def Runner.Live (r : Runner) : Prop := r.stage ≠ .returned ∧ r.stage ≠ .raised

instance (r : Runner) : Decidable r.Live := inferInstanceAs (Decidable (_ ∧ _))

section Steps

variable {σ : Type*} (execute : String → σ → Option σ)

/-- `INSERT INTO schema_migrations … ON CONFLICT (version) DO NOTHING`. -/
def insertVersion (version : List Char) (recorded : List (List Char)) : List (List Char) :=
  if recorded.contains version then recorded else recorded ++ [version]

theorem insertVersion_of_mem {version : List Char} {recorded : List (List Char)}
    (h : version ∈ recorded) : insertVersion version recorded = recorded :=
  if_pos (List.contains_iff_mem.mpr h)

theorem insertVersion_of_notMem {version : List Char} {recorded : List (List Char)}
    (h : version ∉ recorded) : insertVersion version recorded = recorded ++ [version] :=
  if_neg fun hmem => h (List.contains_iff_mem.mp hmem)

/-- The next statement of a call. A file and its record are one transaction, which a
failing script rolls back. -/
def runStep (db : Database σ) (r : Runner) : Database σ × Runner :=
  match r.stage with
  | .connected =>
      ({ db with schemaMigrations := some db.recorded }, { r with stage := .created })
  | .created =>
      match db.schemaMigrations with
      | none => (db, { r with stage := .raised })
      | some done => (db, { r with stage := .applying done (migrationFiles r.directory) })
  | .applying _ [] => (db, { r with stage := .returned })
  | .applying done (m :: files) =>
      -- the versions read at the start decide, not what is recorded by now
      if done.contains m.version then (db, { r with stage := .applying done files })
      else
        match execute m.sql db.schema, db.schemaMigrations with
        | some schema, some recorded =>
            ({ schemaMigrations := some (insertVersion m.version recorded), schema },
              { r with stage := .applying done files, applied := r.applied + 1 })
        -- the transaction is rolled back, and the exception leaves the loop
        | _, _ => (db, { r with stage := .raised })
  | .returned => (db, r)
  | .raised => (db, r)

/-- The database and every call there has been. -/
structure System (σ : Type*) where
  database : Database σ
  runners : List Runner

/-- A process calls `run_migrations`, a call executes its next statement, or its process
or connection is lost. -/
inductive Event
  | start (directory : Directory)
  | advance (i : ℕ)
  | kill (i : ℕ)
deriving DecidableEq, Repr

def step (e : Event) (s : System σ) : System σ :=
  match e with
  | .start directory => { s with runners := s.runners ++ [{ directory }] }
  | .advance i =>
      match s.runners[i]? with
      | none => s
      | some r =>
          { database := (runStep execute s.database r).1
            runners := s.runners.set i (runStep execute s.database r).2 }
  | .kill i =>
      match s.runners[i]? with
      | none => s
      | some r =>
          if r.Live then { s with runners := s.runners.set i { r with stage := .raised } } else s

/-- A database on which no build has run yet. -/
def fresh (schema : σ) : System σ :=
  { database := { schemaMigrations := none, schema }, runners := [] }

/-- `_migrations_ready`: the recorded versions are those this build expects. -/
def migrationsReady (db : Database σ) (directory : Directory) : Bool :=
  match db.schemaMigrations with
  | none => false
  | some applied => applied.toFinset = (migrationVersions directory).toFinset

end Steps

/-! ## What a statement can do -/

section Moves

variable {σ : Type*} {execute : String → σ → Option σ}

/-- Everything the next statement of a call can do. -/
inductive Moves (execute : String → σ → Option σ) (db : Database σ) (r : Runner) :
    Database σ → Runner → Prop
  | create (h : r.stage = .connected) :
      Moves execute db r { db with schemaMigrations := some db.recorded }
        { r with stage := .created }
  | select (h : r.stage = .created) (hdone : db.schemaMigrations = some db.recorded) :
      Moves execute db r db { r with stage := .applying db.recorded (migrationFiles r.directory) }
  | skip {done m files} (h : r.stage = .applying done (m :: files)) (hm : m.version ∈ done) :
      Moves execute db r db { r with stage := .applying done files }
  | apply {done m files schema} (h : r.stage = .applying done (m :: files))
      (hm : m.version ∉ done) (hsql : execute m.sql db.schema = some schema) :
      Moves execute db r
        { schemaMigrations := some (insertVersion m.version db.recorded), schema }
        { r with stage := .applying done files, applied := r.applied + 1 }
  | finish {done} (h : r.stage = .applying done []) :
      Moves execute db r db { r with stage := .returned }
  | fail (h : r.Live) : Moves execute db r db { r with stage := .raised }
  | stay (h : ¬ r.Live) : Moves execute db r db r

theorem runStep_moves (db : Database σ) (r : Runner) :
    Moves execute db r (runStep execute db r).1 (runStep execute db r).2 := by
  have hrecorded : ∀ done, db.schemaMigrations = some done → done = db.recorded := by
    intro done hdone
    simp [Database.recorded, hdone]
  unfold runStep
  split
  case h_1 h => exact .create h
  case h_2 h =>
    split
    · exact .fail (by simp [Runner.Live, h])
    · rename_i done hdone
      obtain rfl := hrecorded done hdone
      exact .select h hdone
  case h_3 h => exact .finish h
  case h_4 done m files h =>
    split
    · rename_i hm
      exact .skip h (List.contains_iff_mem.mp hm)
    · rename_i hm
      have hm : m.version ∉ done := fun hmem => hm (List.contains_iff_mem.mpr hmem)
      split
      · rename_i schema recorded hsql hdone
        obtain rfl := hrecorded recorded hdone
        exact .apply h hm hsql
      · exact .fail (by simp [Runner.Live, h])
  case h_5 h => exact .stay (by simp [Runner.Live, h])
  case h_6 h => exact .stay (by simp [Runner.Live, h])

/-- A call that has ended does not start again, and keeps its build. -/
theorem Moves.frame {db db' : Database σ} {r r' : Runner} (h : Moves execute db r db' r') :
    (r'.Live → r.Live) ∧ r'.directory = r.directory := by
  cases h with
  | create h | select h _ | skip h _ | apply h _ _ | finish h => simp [Runner.Live, h]
  | fail h => exact ⟨fun _ => h, rfl⟩
  | stay h => exact ⟨id, rfl⟩

/-- The calls around the one an event is about, and the same calls after it has moved. -/
theorem runners_around {s : System σ} {i : ℕ} {r : Runner} (hi : s.runners[i]? = some r)
    (r' : Runner) :
    ∃ before after, s.runners = before ++ r :: after ∧
      s.runners.set i r' = before ++ r' :: after := by
  obtain ⟨hlt, hat⟩ := List.getElem?_eq_some_iff.mp hi
  obtain ⟨before, after, hsplit, -, hset⟩ := @List.exists_of_set _ i r' s.runners hlt
  rw [hat] at hsplit
  exact ⟨before, after, hsplit, hset⟩

/-- Everything an event can do: add a call, nothing, or move one call. Being killed is one
of the ways to fail. -/
theorem step_cases (e : Event) (s : System σ) :
    (∃ directory, e = .start directory ∧
        step execute e s =
          ⟨s.database, s.runners ++ [({ directory := directory } : Runner)]⟩) ∨
      step execute e s = s ∨
      ∃ before r after db' r', s.runners = before ++ r :: after ∧
        Moves execute s.database r db' r' ∧ step execute e s = ⟨db', before ++ r' :: after⟩ := by
  cases e with
  | start directory => exact .inl ⟨directory, rfl, rfl⟩
  | advance i =>
      cases hi : s.runners[i]? with
      | none => exact .inr (.inl (by simp [step, hi]))
      | some r =>
          obtain ⟨before, after, hsplit, hset⟩ :=
            runners_around hi (runStep execute s.database r).2
          refine .inr (.inr ⟨before, r, after, _, _, hsplit, runStep_moves s.database r, ?_⟩)
          simp [step, hi, hset]
  | kill i =>
      cases hi : s.runners[i]? with
      | none => exact .inr (.inl (by simp [step, hi]))
      | some r =>
          by_cases hlive : r.Live
          · obtain ⟨before, after, hsplit, hset⟩ := runners_around hi { r with stage := .raised }
            refine .inr (.inr ⟨before, r, after, _, _, hsplit, .fail hlive, ?_⟩)
            simp [step, hi, hset, hlive]
          · exact .inr (.inl (by simp [step, hi, hlive]))

end Moves

/-! ## In any interleaving -/

section Prefixes

variable {α : Type*} {L l a : List α} {x : α}

theorem concat_prefix_of_mem (hL : L.Nodup) (hl : l <+: L) (hax : a ++ [x] <+: L) (hx : x ∈ l) :
    a ++ [x] <+: l := by
  rcases List.prefix_or_prefix_of_prefix hax hl with h | h
  · exact h
  · rcases List.prefix_concat_iff.mp h with h | h
    · rw [h]
    · have hnodup : (a ++ [x]).Nodup := hL.sublist hax.sublist
      exact absurd rfl ((List.nodup_append.mp hnodup).2.2 x (h.subset hx) x (by simp))

theorem eq_of_notMem (hl : l <+: L) (hax : a ++ [x] <+: L) (ha : a <+: l) (hx : x ∉ l) :
    l = a := by
  rcases List.prefix_or_prefix_of_prefix hax hl with h | h
  · exact absurd (h.subset (by simp)) hx
  · rcases List.prefix_concat_iff.mp h with h | h
    · exact absurd (by simp [h]) hx
    · exact h.eq_of_length_le ha.length_le

end Prefixes

section Orders

variable {σ : Type*} {execute : String → σ → Option σ} {M : List Migration}

/-- The versions of a list of migrations. -/
abbrev versions (files : List Migration) : List (List Char) := files.map Migration.version

/-- A call of a build among those of `M`: what it read is still recorded, so are the files
it has passed, and once it has returned, all its files. -/
def Runner.Within (M : List Migration) (recorded : List (List Char)) (r : Runner) : Prop :=
  migrationFiles r.directory <+: M ∧
    match r.stage with
    | .applying done files =>
        done <+: recorded ∧
          ∃ past, past ++ files = migrationFiles r.directory ∧ versions past <+: recorded
    | .returned => migrationVersions r.directory <+: recorded
    | _ => True

/-- What is recorded is an initial part of the versions, and every call respects it. -/
structure InOrder (M : List Migration) (s : System σ) : Prop where
  recorded : s.database.recorded <+: versions M
  within : ∀ r ∈ s.runners, r.Within M s.database.recorded

theorem Runner.Within.mono {r : Runner} {recorded recorded' : List (List Char)}
    (h : r.Within M recorded) (hmore : recorded <+: recorded') : r.Within M recorded' := by
  obtain ⟨hfiles, hstage⟩ := h
  refine ⟨hfiles, ?_⟩
  cases hr : r.stage with
  | applying done files =>
      rw [hr] at hstage
      obtain ⟨hdone, past, hpast, hrec⟩ := hstage
      exact ⟨hdone.trans hmore, past, hpast, hrec.trans hmore⟩
  | returned =>
      rw [hr] at hstage
      exact List.IsPrefix.trans hstage hmore
  | connected | created | raised => trivial

@[simp] theorem recorded_some (recorded : List (List Char)) (schema : σ) :
    (Database.mk (some recorded) schema).recorded = recorded := rfl

/-- The files passed and the next one. -/
theorem next_files {files past rest : List Migration} {m : Migration} (hfiles : files <+: M)
    (hpast : past ++ m :: rest = files) : past ++ [m] <+: M := by
  refine List.IsPrefix.trans ⟨rest, ?_⟩ hfiles
  rw [← hpast]
  simp

theorem next_versions {files past rest : List Migration} {m : Migration} (hfiles : files <+: M)
    (hpast : past ++ m :: rest = files) : versions past ++ [m.version] <+: versions M := by
  simpa using (next_files hfiles hpast).map Migration.version

/-- Recording the next file keeps the record an initial part, of which the file is then
the last or an earlier one. -/
theorem insertVersion_prefix {recorded : List (List Char)} {past : List Migration} {m : Migration}
    (hM : (versions M).Nodup) (hrecorded : recorded <+: versions M)
    (hnext : versions past ++ [m.version] <+: versions M) (hpast : versions past <+: recorded) :
    recorded <+: insertVersion m.version recorded ∧
      insertVersion m.version recorded <+: versions M ∧
      versions past ++ [m.version] <+: insertVersion m.version recorded := by
  by_cases hm : m.version ∈ recorded
  · -- an overlapping call has recorded the file in the meantime
    rw [insertVersion_of_mem hm]
    exact ⟨List.prefix_rfl, hrecorded, concat_prefix_of_mem hM hrecorded hnext hm⟩
  · rw [insertVersion_of_notMem hm]
    have heq : recorded = versions past := eq_of_notMem hrecorded hnext hpast hm
    rw [heq]
    exact ⟨List.prefix_append _ _, hnext, List.prefix_rfl⟩

theorem Moves.within {db db' : Database σ} {r r' : Runner} (h : Moves execute db r db' r')
    (hM : (versions M).Nodup) (hdb : db.recorded <+: versions M) (hr : r.Within M db.recorded) :
    db.recorded <+: db'.recorded ∧ db'.recorded <+: versions M ∧ r'.Within M db'.recorded := by
  obtain ⟨hfiles, hstage⟩ := hr
  cases h with
  | create h => exact ⟨List.prefix_rfl, hdb, hfiles, trivial⟩
  | select h hdone =>
      exact ⟨List.prefix_rfl, hdb, hfiles, List.prefix_rfl, [], rfl, List.nil_prefix⟩
  | @skip done m files h hm =>
      rw [h] at hstage
      obtain ⟨hdone, past, hpast, hrec⟩ := hstage
      have hnext := next_versions hfiles hpast
      refine ⟨List.prefix_rfl, hdb, hfiles, hdone, past ++ [m], by simpa using hpast, ?_⟩
      simpa using concat_prefix_of_mem hM hdb hnext (hdone.subset hm)
  | @apply done m files schema h hm hsql =>
      rw [h] at hstage
      obtain ⟨hdone, past, hpast, hrec⟩ := hstage
      have hnext := next_versions hfiles hpast
      obtain ⟨hmore, hwithin, hlast⟩ := insertVersion_prefix hM hdb hnext hrec
      refine ⟨hmore, hwithin, hfiles, hdone.trans hmore, past ++ [m], by simpa using hpast, ?_⟩
      simpa using hlast
  | @finish done h =>
      rw [h] at hstage
      obtain ⟨hdone, past, hpast, hrec⟩ := hstage
      have hall : past = migrationFiles r.directory := by simpa using hpast
      refine ⟨List.prefix_rfl, hdb, hfiles, ?_⟩
      show versions (migrationFiles r.directory) <+: db.recorded
      rw [← hall]
      exact hrec
  | fail h => exact ⟨List.prefix_rfl, hdb, hfiles, trivial⟩
  | stay h => exact ⟨List.prefix_rfl, hdb, hfiles, hstage⟩

/-- A build of an event is one of those of `M`. -/
def Event.Of (M : List Migration) (e : Event) : Prop :=
  ∀ directory, e = .start directory → migrationFiles directory <+: M

theorem InOrder.step {s : System σ} {e : Event} (h : InOrder M s) (hM : (versions M).Nodup)
    (he : e.Of M) : InOrder M (step execute e s) := by
  rcases @step_cases σ execute e s with
    ⟨directory, rfl, hstep⟩ | hstep | ⟨before, r, after, db', r', hsplit, hmove, hstep⟩
  · rw [hstep]
    refine ⟨h.recorded, ?_⟩
    intro r hr
    rcases List.mem_append.mp hr with hr | hr
    · exact h.within r hr
    · obtain rfl := List.mem_singleton.mp hr
      exact ⟨he directory rfl, trivial⟩
  · rw [hstep]
    exact h
  · have hcalls : ∀ x, x ∈ before ++ r :: after → x.Within M s.database.recorded :=
      fun x hx => h.within x (hsplit ▸ hx)
    obtain ⟨hmore, hinitial, hwithin⟩ := hmove.within hM h.recorded (hcalls r (by simp))
    rw [hstep]
    refine ⟨hinitial, ?_⟩
    intro x hx
    rcases List.mem_append.mp hx with hx | hx
    · exact (hcalls x (by simp [hx])).mono hmore
    · rcases List.mem_cons.mp hx with rfl | hx
      · exact hwithin
      · exact (hcalls x (by simp [hx])).mono hmore

theorem inOrder_fresh (schema : σ) : InOrder M (fresh schema) :=
  ⟨List.nil_prefix, fun _ h => absurd h List.not_mem_nil⟩

theorem inOrder_run {schema : σ} {events : List Event} (hM : (versions M).Nodup)
    (hevents : ∀ e ∈ events, e.Of M) :
    InOrder M (runFrom (Deployment.step execute) (fresh schema) events) :=
  runFrom_invariant (P := fun e _ => e.Of M) (fun _ _ he h => h.step hM he)
    (stepsMeet_of_forall fun e he _ => hevents e he) (inOrder_fresh schema)

/-- A build is ready exactly when what is recorded are its versions, in its order. -/
theorem InOrder.ready_iff {s : System σ} {r : Runner} (h : InOrder M s) (hM : (versions M).Nodup)
    (hr : r ∈ s.runners) :
    migrationsReady s.database r.directory = true ↔
      s.database.schemaMigrations = some (migrationVersions r.directory) := by
  have hbuild : migrationVersions r.directory <+: versions M :=
    (h.within r hr).1.map Migration.version
  have hrecorded := h.recorded
  unfold migrationsReady
  unfold Database.recorded at hrecorded
  cases hdb : s.database.schemaMigrations with
  | none => simp
  | some applied =>
      rw [hdb, Option.getD_some] at hrecorded
      simp only [decide_eq_true_eq, Option.some.injEq]
      constructor
      · intro hsame
        have hlen : applied.length = (migrationVersions r.directory).length := by
          rw [← List.toFinset_card_of_nodup (hM.sublist hrecorded.sublist), hsame,
            List.toFinset_card_of_nodup (hM.sublist hbuild.sublist)]
        exact (List.prefix_of_prefix_length_le hrecorded hbuild hlen.le).eq_of_length hlen
      · intro hsame
        rw [hsame]

end Orders

/-! ## One call at a time -/

section Upgrades

variable {σ : Type*} {execute : String → σ → Option σ} {M : List Migration}

/-- What is recorded, for a call in its loop that no other call overlaps: what it read, or
if it has passed that, exactly the files it has passed. -/
def Runner.Sole (recorded : List (List Char)) (r : Runner) : Prop :=
  match r.stage with
  | .applying done files =>
      ∃ past, past ++ files = migrationFiles r.directory ∧
        ((versions past <+: done ∧ recorded = done) ∨
          (done <+: versions past ∧ recorded = versions past))
  | _ => True

/-- The schema is the one the recorded migrations give, each executed once. -/
structure Upgraded (execute : String → σ → Option σ) (M : List Migration) (schema : σ)
    (s : System σ) : Prop where
  replayed : replay execute ((M.take s.database.recorded.length).map Migration.sql) schema =
    some s.database.schema
  counted : (s.runners.map Runner.applied).sum = s.database.recorded.length
  sole : ∀ r ∈ s.runners, r.Live → r.Sole s.database.recorded
  alone : s.runners.Pairwise fun r r' => ¬ (r.Live ∧ r'.Live)

/-- No call is in progress when one starts. -/
def Alone (e : Event) (s : System σ) : Prop :=
  match e with
  | .start _ => ∀ r ∈ s.runners, ¬ r.Live
  | _ => True

instance : ∀ (e : Event) (s : System σ), Decidable (Alone e s)
  | .start _, s => inferInstanceAs (Decidable (∀ r ∈ s.runners, ¬ r.Live))
  | .advance _, _ => inferInstanceAs (Decidable True)
  | .kill _, _ => inferInstanceAs (Decidable True)

theorem Moves.eq_of_not_live {db db' : Database σ} {r r' : Runner}
    (h : Moves execute db r db' r') (hlive : ¬ r.Live) : db' = db ∧ r' = r := by
  cases h with
  | create h | select h _ | skip h _ | apply h _ _ | finish h =>
      exact absurd (by simp [Runner.Live, h]) hlive
  | fail h => exact absurd h hlive
  | stay _ => exact ⟨rfl, rfl⟩

theorem notMem_versions {past : List Migration} {m : Migration} (hM : (versions M).Nodup)
    (hnext : versions past ++ [m.version] <+: versions M) : m.version ∉ versions past := by
  intro hm
  have hnodup : (versions past ++ [m.version]).Nodup := hM.sublist hnext.sublist
  exact absurd rfl ((List.nodup_append.mp hnodup).2.2 m.version hm m.version (by simp))

/-- A file that no other call can have recorded is the one after those recorded. -/
theorem recorded_eq_passed {recorded done : List (List Char)} {past : List Migration}
    {m : Migration} (hrecorded : recorded <+: versions M)
    (hnext : versions past ++ [m.version] <+: versions M) (hm : m.version ∉ done)
    (hsole : (versions past <+: done ∧ recorded = done) ∨
      (done <+: versions past ∧ recorded = versions past)) :
    recorded = versions past ∧ done <+: versions past := by
  rcases hsole with ⟨hpast, heq⟩ | ⟨hdone, heq⟩
  · subst heq
    have hpassed := eq_of_notMem hrecorded hnext hpast hm
    exact ⟨hpassed, hpassed ▸ List.prefix_rfl⟩
  · exact ⟨heq, hdone⟩

/-- What is recorded while a call that no other overlaps looks at its next file. -/
theorem Runner.Sole.next {r : Runner} {recorded done : List (List Char)} {m : Migration}
    {files : List Migration} (hsole : r.Live → r.Sole recorded)
    (h : r.stage = .applying done (m :: files)) :
    ∃ past, past ++ m :: files = migrationFiles r.directory ∧
      ((versions past <+: done ∧ recorded = done) ∨
        (done <+: versions past ∧ recorded = versions past)) := by
  have hcall := hsole (by simp [Runner.Live, h])
  unfold Runner.Sole at hcall
  rw [h] at hcall
  exact hcall

theorem Moves.upgraded {db db' : Database σ} {r r' : Runner} {schema : σ}
    (h : Moves execute db r db' r') (hM : (versions M).Nodup) (hdb : db.recorded <+: versions M)
    (hr : r.Within M db.recorded) (hsole : r.Live → r.Sole db.recorded)
    (hreplay : replay execute ((M.take db.recorded.length).map Migration.sql) schema =
      some db.schema) :
    replay execute ((M.take db'.recorded.length).map Migration.sql) schema = some db'.schema ∧
      r'.applied + db.recorded.length = r.applied + db'.recorded.length ∧
      (r'.Live → r'.Sole db'.recorded) := by
  obtain ⟨hfiles, -⟩ := hr
  cases h with
  | create h => exact ⟨hreplay, rfl, fun _ => trivial⟩
  | select h hdone =>
      exact ⟨hreplay, rfl, fun _ => ⟨[], rfl, .inl ⟨List.nil_prefix, rfl⟩⟩⟩
  | @skip done m files h hm =>
      refine ⟨hreplay, rfl, fun _ => ?_⟩
      obtain ⟨past, hpast, hcase⟩ := Runner.Sole.next hsole h
      have hnext := next_versions hfiles hpast
      refine ⟨past ++ [m], by simpa using hpast, ?_⟩
      rcases hcase with ⟨-, heq⟩ | ⟨hdone, -⟩
      · -- a version that was read has been passed by the record as well
        refine .inl ⟨?_, heq⟩
        simpa using concat_prefix_of_mem hM (heq ▸ hdb) hnext hm
      · exact absurd (hdone.subset hm) (notMem_versions hM hnext)
  | @apply done m files schema' h hm hsql =>
      obtain ⟨past, hpast, hcase⟩ := Runner.Sole.next hsole h
      have hnext := next_versions hfiles hpast
      obtain ⟨hrecorded, hdone⟩ := recorded_eq_passed hdb hnext hm hcase
      have hinsert : insertVersion m.version db.recorded = versions (past ++ [m]) := by
        rw [insertVersion_of_notMem (hrecorded ▸ notMem_versions hM hnext), hrecorded]
        simp
      have hall : M.take (past.length + 1) = past ++ [m] := by
        have htake := List.prefix_iff_eq_take.mp (next_files hfiles hpast)
        simpa using htake.symm
      have hpassed : M.take past.length = past := by
        have hfirst : past <+: M := (List.prefix_append past [m]).trans (next_files hfiles hpast)
        exact (List.prefix_iff_eq_take.mp hfirst).symm
      refine ⟨?_, ?_, fun _ => ⟨past ++ [m], by simpa using hpast, .inr ⟨?_, hinsert⟩⟩⟩
      · show replay execute ((M.take (insertVersion m.version db.recorded).length).map
          Migration.sql) schema = some schema'
        rw [hrecorded, List.length_map, hpassed] at hreplay
        rw [hinsert, List.length_map, List.length_append, List.length_singleton, hall,
          List.map_append]
        exact (replay_concat execute hreplay).trans hsql
      · show r.applied + 1 + db.recorded.length =
          r.applied + (insertVersion m.version db.recorded).length
        rw [hinsert, hrecorded]
        simp only [List.length_map, List.length_append, List.length_singleton]
        omega
      · refine hdone.trans ?_
        simp
  | @finish done h => exact ⟨hreplay, rfl, fun _ => trivial⟩
  | fail h => exact ⟨hreplay, rfl, fun _ => trivial⟩
  | stay h => exact ⟨hreplay, rfl, hsole⟩

theorem Upgraded.step {schema : σ} {s : System σ} {e : Event} (h : Upgraded execute M schema s)
    (hM : (versions M).Nodup) (horder : InOrder M s) (halone : Alone e s) :
    Upgraded execute M schema (step execute e s) := by
  rcases @step_cases σ execute e s with
    ⟨directory, rfl, hstep⟩ | hstep | ⟨before, r, after, db', r', hsplit, hmove, hstep⟩
  · rw [hstep]
    refine ⟨h.replayed, by simpa using h.counted, ?_, ?_⟩
    · intro r hr hlive
      rcases List.mem_append.mp hr with hr | hr
      · exact h.sole r hr hlive
      · obtain rfl := List.mem_singleton.mp hr
        trivial
    · refine List.pairwise_append.mpr ⟨h.alone, List.pairwise_singleton _ _, ?_⟩
      intro r hr r' _ hboth
      exact halone r hr hboth.1
  · rw [hstep]
    exact h
  · have hpair := h.alone
    have hcount := h.counted
    have hcalls : ∀ x, x ∈ before ++ r :: after → x ∈ s.runners := fun x hx => hsplit ▸ hx
    rw [hsplit] at hpair hcount
    obtain ⟨hbefore, hrest, hcross⟩ := List.pairwise_append.mp hpair
    obtain ⟨hfirst, hafter⟩ := List.pairwise_cons.mp hrest
    obtain ⟨hreplay, hadded, hsole⟩ := hmove.upgraded hM horder.recorded
      (horder.within r (hcalls r (by simp))) (h.sole r (hcalls r (by simp))) h.replayed
    have hrevive : r'.Live → r.Live := hmove.frame.1
    -- a call other than the one that moves is in progress only if that one has ended
    have hothers : ∀ x ∈ s.runners, x.Live → ¬ r.Live → x.Sole db'.recorded := by
      intro x hx hlive hended
      rw [(hmove.eq_of_not_live hended).1]
      exact h.sole x hx hlive
    rw [hstep]
    refine ⟨hreplay, ?_, ?_, ?_⟩
    · simp only [List.map_append, List.map_cons, List.sum_append, List.sum_cons] at hcount ⊢
      omega
    · intro x hx hlive
      rcases List.mem_append.mp hx with hx | hx
      · exact hothers x (hcalls x (by simp [hx])) hlive
          fun hr => hcross x hx r (by simp) ⟨hlive, hr⟩
      · rcases List.mem_cons.mp hx with rfl | hx
        · exact hsole hlive
        · exact hothers x (hcalls x (by simp [hx])) hlive fun hr => hfirst x hx ⟨hr, hlive⟩
    · refine List.pairwise_append.mpr ⟨hbefore, List.pairwise_cons.mpr ⟨?_, hafter⟩, ?_⟩
      · intro x hx hboth
        exact hfirst x hx ⟨hrevive hboth.1, hboth.2⟩
      · intro x hx y hy hboth
        rcases List.mem_cons.mp hy with rfl | hy
        · exact hcross x hx r (by simp) ⟨hboth.1, hrevive hboth.2⟩
        · exact hcross x hx y (by simp [hy]) hboth

theorem upgraded_fresh (schema : σ) : Upgraded execute M schema (fresh schema) :=
  ⟨rfl, rfl, fun _ h => absurd h List.not_mem_nil, List.Pairwise.nil⟩

theorem upgraded_run {schema : σ} {events : List Event} (hM : (versions M).Nodup)
    (hevents : ∀ e ∈ events, e.Of M)
    (halone : StepsMeet (Deployment.step execute) Alone (fresh schema) events) :
    Upgraded execute M schema (runFrom (Deployment.step execute) (fresh schema) events) := by
  have hrun : ∀ (s : System σ), InOrder M s → Upgraded execute M schema s →
      StepsMeet (Deployment.step execute) Alone s events →
      Upgraded execute M schema (runFrom (Deployment.step execute) s events) := by
    clear halone
    induction events with
    | nil => exact fun s _ h _ => h
    | cons e events ih =>
        intro s horder h halone
        refine ih (fun d hd => hevents d (List.mem_cons_of_mem e hd)) _ ?_ ?_ halone.2
        · exact horder.step hM (hevents e List.mem_cons_self)
        · exact h.step hM horder halone.1
  exact hrun _ (inOrder_fresh schema) (upgraded_fresh schema) halone

end Upgrades

/-! ## Builds that only go forward -/

section Builds

variable {σ : Type*} (execute : String → σ → Option σ)

/-- What is left after any number of calls on a database without migrations. -/
abbrev deployed (schema : σ) (events : List Event) : System σ :=
  runFrom (step execute) (fresh schema) events

theorem of_extends {newest : Directory} (hnames : (newest.map Prod.fst).Nodup)
    {events : List Event}
    (hbuilds : ∀ directory, Event.start directory ∈ events → Extends directory newest) :
    ∀ e ∈ events, e.Of (migrationFiles newest) := by
  rintro e he directory rfl
  exact migrationFiles_extends hnames (hbuilds directory he)

/-- Whatever builds ran, however their calls overlapped and wherever they died, the
database records an initial part of the versions, in order; a call that returned has left
all of its build recorded; and a build is ready when exactly its versions are. -/
theorem migrations_in_order {newest : Directory} (hnames : (newest.map Prod.fst).Nodup)
    (schema : σ) {events : List Event}
    (hbuilds : ∀ directory, Event.start directory ∈ events → Extends directory newest) :
    (deployed execute schema events).database.recorded <+: migrationVersions newest ∧
      ∀ r ∈ (deployed execute schema events).runners,
        (r.stage = .returned → migrationVersions r.directory <+:
          (deployed execute schema events).database.recorded) ∧
        (migrationsReady (deployed execute schema events).database r.directory = true ↔
          (deployed execute schema events).database.schemaMigrations =
            some (migrationVersions r.directory)) := by
  have hM : (versions (migrationFiles newest)).Nodup := nodup_versions hnames
  have horder : InOrder (migrationFiles newest) (deployed execute schema events) :=
    inOrder_run hM (of_extends hnames hbuilds)
  refine ⟨horder.recorded, ?_⟩
  intro r hr
  refine ⟨?_, horder.ready_iff hM hr⟩
  intro hreturned
  have hwithin := (horder.within r hr).2
  rw [hreturned] at hwithin
  exact hwithin

/-- If no two calls overlap, the schema is always what a fresh installation up to the last
recorded version gives, whichever builds it went through and wherever their calls were cut
short: each script has been executed exactly once, and a ready build has its own schema. -/
theorem upgrade_path {newest : Directory} (hnames : (newest.map Prod.fst).Nodup)
    (schema : σ) {events : List Event}
    (hbuilds : ∀ directory, Event.start directory ∈ events → Extends directory newest)
    (halone : StepsMeet (step execute) Alone (fresh schema) events) :
    replay execute (((migrationFiles newest).take
        (deployed execute schema events).database.recorded.length).map Migration.sql) schema =
        some (deployed execute schema events).database.schema ∧
      ((deployed execute schema events).runners.map Runner.applied).sum =
        (deployed execute schema events).database.recorded.length ∧
      ∀ r ∈ (deployed execute schema events).runners,
        migrationsReady (deployed execute schema events).database r.directory = true →
          replay execute ((migrationFiles r.directory).map Migration.sql) schema =
            some (deployed execute schema events).database.schema := by
  have hM : (versions (migrationFiles newest)).Nodup := nodup_versions hnames
  have hevents := of_extends hnames hbuilds
  have horder : InOrder (migrationFiles newest) (deployed execute schema events) :=
    inOrder_run hM hevents
  have hupgraded : Upgraded execute (migrationFiles newest) schema
      (deployed execute schema events) := upgraded_run hM hevents halone
  refine ⟨hupgraded.replayed, hupgraded.counted, ?_⟩
  intro r hr hready
  have hrecorded : (deployed execute schema events).database.recorded =
      migrationVersions r.directory := by
    rw [Database.recorded, (horder.ready_iff hM hr).mp hready, Option.getD_some]
  have hbuild := List.prefix_iff_eq_take.mp (horder.within r hr).1
  have hreplayed := hupgraded.replayed
  rw [hrecorded, migrationVersions, List.length_map, ← hbuild] at hreplayed
  exact hreplayed

end Builds

/-! ## Two builds -/

/-- A script that cannot be executed twice. -/
def addColumn (sql : String) (columns : List String) : Option (List String) :=
  if sql ∈ columns then none else some (columns ++ [sql])

def firstBuild : Directory := [("0001_init.sql".toList, "init")]

def secondBuild : Directory := [("0002_fts.sql".toList, "fts"), ("0001_init.sql".toList, "init")]

theorem extends_secondBuild {directory : Directory}
    (h : directory = firstBuild ∨ directory = secondBuild) : Extends directory secondBuild := by
  rcases h with rfl | rfl
  · exact ⟨[("0002_fts.sql".toList, "fts")], by decide, by decide⟩
  · exact ⟨[], by decide, by simp⟩

/-- The second build starts while the first is in its loop, and finds its script done. -/
def overlapping : List Event :=
  [.start firstBuild, .advance 0, .advance 0, .start secondBuild, .advance 1, .advance 1,
    .advance 0, .advance 1, .advance 0]

theorem migrations_in_order_overlapping :
    (deployed addColumn [] overlapping).database.recorded <+: migrationVersions secondBuild ∧
      ∀ r ∈ (deployed addColumn [] overlapping).runners,
        (r.stage = .returned → migrationVersions r.directory <+:
          (deployed addColumn [] overlapping).database.recorded) ∧
        (migrationsReady (deployed addColumn [] overlapping).database r.directory = true ↔
          (deployed addColumn [] overlapping).database.schemaMigrations =
            some (migrationVersions r.directory)) := by
  refine migrations_in_order addColumn (by decide) [] ?_
  intro directory h
  exact extends_secondBuild (by simpa [overlapping] using h)

/-- The first build dies after its transaction, and the second takes over. -/
def takenOver : List Event :=
  [.start firstBuild, .advance 0, .advance 0, .advance 0, .kill 0, .start secondBuild, .advance 1,
    .advance 1, .advance 1, .advance 1, .advance 1]

theorem upgrade_path_takenOver :
    (deployed addColumn [] takenOver).database.schema = ["init", "fts"] ∧
      replay addColumn (((migrationFiles secondBuild).take
          (deployed addColumn [] takenOver).database.recorded.length).map Migration.sql) [] =
          some (deployed addColumn [] takenOver).database.schema ∧
        ((deployed addColumn [] takenOver).runners.map Runner.applied).sum =
          (deployed addColumn [] takenOver).database.recorded.length ∧
        ∀ r ∈ (deployed addColumn [] takenOver).runners,
          migrationsReady (deployed addColumn [] takenOver).database r.directory = true →
            replay addColumn ((migrationFiles r.directory).map Migration.sql) [] =
              some (deployed addColumn [] takenOver).database.schema := by
  refine ⟨by decide, upgrade_path addColumn (by decide) [] ?_ (by decide)⟩
  intro directory h
  exact extends_secondBuild (by simpa [takenOver] using h)

end CrawlTrove.Deployment
