import Nsl.Framework.Simulation
import Nsl.Routes.Save
import Nsl.Rust.JsonPrinted

/-! # The store on the bytes of its file

  The calls of `Nsl.Routes.Store` work on what the file says. Here a call reads
  the bytes of `routes.json`, prints what it has made of the routes, and writes
  that text over the file; the write can stop at any byte. The reader of
  serde_json is a parameter, as in `Nsl.Routes.Save`: it reads back what is
  printed, and refuses a text that is still open.

  - `run_on_disk`: one call, with its result and the bytes that it leaves.
  - `run_on_disk_refines`: it does what the store does.
  - `reachable_on_disk`: after any calls, the lists that are loaded from the
    bytes are those of the store.
  - `to_string_pretty_injective`: two lists of routes never have the same text,
    so that there is such a reader.
-/

open Rust Framework

namespace Nsl

/-! ### Calls -/

def save_on_disk (point : SavePoint) (routes : List RouteMapping) (file : Option (List UInt8)) :
    Except NSLError Unit × Option (List UInt8) :=
  (if point.outcome routes = .done then .ok () else .error .Io, point.file file routes)

section reader

variable (from_str : Str → Option (List RouteMapping))

/-- One call on the bytes of the file. How far its save comes is the point, and
    not the outcome that the operating system has for a write. -/
def run_on_disk (os : Os) (point : SavePoint) (call : Call) (file : Option (List UInt8)) :
    Except NSLError Unit × Option (List UInt8) :=
  match os.acquire_lock with
  | .error e => (.error e, file)
  | .ok () =>
    match load_routes_file from_str os.alive_at_load file with
    | .error e => (.error e, file)
    | .ok routes =>
      match call.body os routes with
      | .error e => (.error e, file)
      | .ok routes => save_on_disk point routes file

/-- The bytes of the file under any sequence of calls, starting without it. -/
def disk : System (Option (List UInt8)) (Os × SavePoint × Call) where
  init file := file = none
  step file a := some (run_on_disk from_str a.1 a.2.1 a.2.2 file).2

/-- The calls are the same, and see the same but for the outcome of a write. -/
def SameCall (a : Os × SavePoint × Call) (b : Os × Call) : Prop :=
  b.2 = a.2.2 ∧ ∃ write, b.1 = { a.1 with write := write }

/-! ### Refinement -/

variable {from_str}

/-- What a call makes of the routes does not depend on how its save will end. -/
theorem body_write (os : Os) (write : WriteOutcome) (routes : List RouteMapping) (call : Call) :
    call.body { os with write := write } routes = call.body os routes := by
  cases call with
  | add_route_with_owner reg =>
    have hcheck : ∀ norm existing, check_existing { os with write := write } reg norm existing =
        check_existing os reg norm existing := by
      intro norm existing
      cases existing <;> rfl
    simp only [Call.body, hcheck]
  | remove_route hostname p => cases p <;> rfl
  | remove_route_for_pid hostname p pid => cases p <;> rfl

theorem update_write (os : Os) (write : WriteOutcome) (call : Call) (file : RoutesFile) :
    call.update { os with write := write } file = call.update os file := by
  unfold Call.update
  simp only [body_write]

theorem run_on_disk_write (os : Os) (write : WriteOutcome) (point : SavePoint) (call : Call)
    (file : Option (List UInt8)) :
    run_on_disk from_str { os with write := write } point call file =
      run_on_disk from_str os point call file := by
  unfold run_on_disk
  simp only [body_write]

theorem routes_bytes_ne_nil (routes : List RouteMapping) : routes_bytes routes ≠ [] := by
  intro h
  have htext : to_string_pretty routes = [] := bytes_inj h
  exact ((closed_prefix_iff (List.prefix_refl _)).mpr rfl).1 htext

/-- Every outcome of a write is that of some point. -/
theorem exists_point (write : WriteOutcome) (routes : List RouteMapping) :
    ∃ point : SavePoint, point.outcome routes = write := by
  cases write with
  | done => exact ⟨.written (routes_bytes routes).length, if_pos (Nat.le_refl _)⟩
  | refused => exact ⟨.before, rfl⟩
  | torn =>
    have hpos := List.length_pos_iff.mpr (routes_bytes_ne_nil routes)
    exact ⟨.written 0, if_neg (Nat.not_le.mpr hpos)⟩

theorem load_of_bytes_ok_iff {alive : UInt32 → Bool} {file : Option (List UInt8)}
    {routes : List RouteMapping} :
    load_routes_file from_str alive file = .ok routes ↔
      load_routes alive (.of_bytes from_str file) = .ok routes := by
  have hload : (load_routes_file from_str alive file).toOption =
      (load_routes alive (.of_bytes from_str file)).toOption := load_of_bytes _ file
  have hok : ∀ x : Except NSLError (List RouteMapping),
      x = .ok routes ↔ x.toOption = some routes := by
    intro x
    cases x <;> simp [Except.toOption]
  rw [hok, hok, hload]

/-- What is asked of the reader. -/
structure ReadsBack (from_str : Str → Option (List RouteMapping)) : Prop where
  refuses : RefusesOpen from_str
  reads : ∀ routes, from_str (to_string_pretty routes) = some routes

variable (hreader : ReadsBack from_str)
include hreader

theorem save_on_disk_refines {point : SavePoint} {routes : List RouteMapping}
    {file : Option (List UInt8)} {write : WriteOutcome} (h : point.outcome routes = write) :
    save_routes write routes (.of_bytes from_str file) =
      ((save_on_disk point routes file).1,
        .of_bytes from_str (save_on_disk point routes file).2) := by
  have hfile : RoutesFile.of_bytes from_str (point.file file routes) =
      (save_routes (point.outcome routes) routes (.of_bytes from_str file)).2 :=
    save_refines point hreader.refuses (hreader.reads routes)
  rw [h] at hfile
  rw [save_on_disk, hfile, h]
  cases write <;> rfl

/-- **A call on the bytes does what the store does**, where the save of the
    store ends as that on the bytes. The results are the same, up to the kind
    of the error. -/
theorem run_on_disk_refines (os : Os) (point : SavePoint) (call : Call)
    (file : Option (List UInt8))
    (hwrite : ∀ routes, call.update os (.of_bytes from_str file) = .ok routes →
      point.outcome routes = os.write) :
    (run os call (.of_bytes from_str file)).1.toOption =
        (run_on_disk from_str os point call file).1.toOption ∧
      (run os call (.of_bytes from_str file)).2 =
        .of_bytes from_str (run_on_disk from_str os point call file).2 := by
  have hload : (load_routes_file from_str os.alive_at_load file).toOption =
      (load_routes os.alive_at_load (.of_bytes from_str file)).toOption := load_of_bytes _ file
  unfold run run_on_disk
  cases os.acquire_lock with
  | error e => exact ⟨rfl, rfl⟩
  | ok _ =>
    unfold Call.update at hwrite ⊢
    cases hdisk : load_routes_file from_str os.alive_at_load file with
    | error e =>
      cases hstore : load_routes os.alive_at_load (.of_bytes from_str file) with
      | error e' => exact ⟨rfl, rfl⟩
      | ok routes =>
        rw [hdisk, hstore] at hload
        cases hload
    | ok routes =>
      cases hstore : load_routes os.alive_at_load (.of_bytes from_str file) with
      | error e' =>
        rw [hdisk, hstore] at hload
        cases hload
      | ok routes' =>
        rw [hdisk, hstore] at hload
        obtain rfl : routes = routes' := Option.some.inj hload
        simp only [hstore] at hwrite ⊢
        cases hbody : call.body os routes with
        | error e => exact ⟨rfl, rfl⟩
        | ok routes' =>
          simp only
          rw [save_on_disk_refines hreader (hwrite routes' hbody)]
          exact ⟨rfl, rfl⟩

/-- The bytes of a call are a call of the store. -/
theorem disk_simulation :
    System.Simulation (disk from_str) store (RoutesFile.of_bytes from_str) SameCall := by
  rintro file ⟨os, point, call⟩ file' hstep
  cases hstep
  cases hupdate : call.update os (.of_bytes from_str file) with
  | error e =>
    have hrefines := run_on_disk_refines hreader os point call file
      (fun routes hroutes => by rw [hupdate] at hroutes; cases hroutes)
    exact ⟨(os, call), ⟨rfl, os.write, rfl⟩, congrArg some hrefines.2⟩
  | ok routes =>
    have hrefines := run_on_disk_refines hreader { os with write := point.outcome routes } point
      call file (fun routes' hroutes => by
        rw [update_write, hupdate] at hroutes
        cases hroutes
        rfl)
    rw [run_on_disk_write] at hrefines
    exact ⟨(_, call), ⟨rfl, _, rfl⟩, congrArg some hrefines.2⟩

/-- A call of the store can be made on the bytes. -/
theorem disk_lifting :
    System.Lifting (disk from_str) store (RoutesFile.of_bytes from_str) SameCall := by
  rintro file ⟨os, call⟩ file' hstep
  cases hstep
  cases hupdate : call.update os (.of_bytes from_str file) with
  | error e =>
    have hrefines := run_on_disk_refines hreader os .before call file
      (fun routes hroutes => by rw [hupdate] at hroutes; cases hroutes)
    exact ⟨(os, .before, call), _, ⟨rfl, os.write, rfl⟩, rfl, hrefines.2.symm⟩
  | ok routes =>
    obtain ⟨point, hpoint⟩ := exists_point os.write routes
    have hrefines := run_on_disk_refines hreader os point call file
      (fun routes' hroutes => by
        rw [hupdate] at hroutes
        cases hroutes
        exact hpoint)
    exact ⟨(os, point, call), _, ⟨rfl, os.write, rfl⟩, rfl, hrefines.2.symm⟩

/-! ### Whole runs -/

/-- **The store is what is on the disk**: the lists that are loaded after any
    calls on the bytes, each stopped at any byte of its save, are those that
    are loaded in the model of the store. -/
theorem reachable_on_disk (routes : List RouteMapping) :
    (∃ acts file alive, (disk from_str).Steps System.anyStep none acts file ∧
      load_routes_file from_str alive file = .ok routes) ↔ Reachable routes := by
  constructor
  · rintro ⟨acts, file, alive, hrun, hload⟩
    obtain ⟨acts', _, hstore⟩ := (disk_simulation hreader).steps hrun
    exact ⟨acts', _, alive, hstore, load_of_bytes_ok_iff.mp hload⟩
  · rintro ⟨acts, file, alive, hrun, hload⟩
    obtain ⟨acts', file', _, hdisk, rfl⟩ := (disk_lifting hreader).steps (s := none) rfl hrun
    exact ⟨acts', file', alive, hdisk, load_of_bytes_ok_iff.mpr hload⟩

end reader

/-! ### There is such a reader -/

theorem tells_owner (a b : RouteOwner) : a.to_json.Tells b.to_json (a = b) := by
  have hgroup := Json.tells_option
    (fun g h : UInt32 => (Json.tells_number g.toNat h.toNat).imp UInt32.toNat_inj.mp)
    (fun g => Json.notNull_number g.toNat) a.process_group b.process_group
  have htime := Json.tells_option
    (fun t u : UInt64 => (Json.tells_number t.toNat u.toNat).imp UInt64.toNat_inj.mp)
    (fun t => Json.notNull_number t.toNat) a.start_time b.start_time
  have hfields := Json.tells_object
    (.cons "pid".toList (Json.tells_number a.pid.toNat b.pid.toNat)
    (.cons "platform".toList (Json.tells_string a.platform b.platform)
    (.cons "cwd".toList (Json.tells_string a.cwd b.cwd)
    (.cons "command".toList (Json.tells_array Json.tells_string a.command b.command)
    (.cons "process_group".toList hgroup (.cons "start_time".toList htime .nil))))))
  refine hfields.imp ?_
  rintro ⟨hpid, hplatform, hcwd, hcommand, hgroup, htime, -⟩
  cases a
  cases b
  simp_all [UInt32.toNat_inj]

theorem tells_route (a b : RouteMapping) : a.to_json.Tells b.to_json (a = b) := by
  have howner := Json.tells_option tells_owner (fun _ => Json.notNull_object _) a.owner b.owner
  have hfields := Json.tells_object
    (.cons "hostname".toList (Json.tells_string a.hostname b.hostname)
    (.cons "port".toList (Json.tells_number a.port.toNat b.port.toNat)
    (.cons "pid".toList (Json.tells_number a.pid.toNat b.pid.toNat)
    (.cons "change_origin".toList (Json.tells_bool a.change_origin b.change_origin)
    (.cons "path_prefix".toList (Json.tells_string a.path_prefix b.path_prefix)
    (.cons "strip_prefix".toList (Json.tells_bool a.strip_prefix b.strip_prefix)
    (.cons "owner".toList howner .nil)))))))
  refine hfields.imp ?_
  rintro ⟨hhostname, hport, hpid, horigin, hprefix, hstrip, howner, -⟩
  cases a
  cases b
  simp_all [UInt32.toNat_inj, UInt16.toNat_inj]

/-- **The text tells the routes.** -/
theorem to_string_pretty_injective : Function.Injective to_string_pretty := by
  intro a b h
  have htells := Json.tells_array tells_route a b 0 [] [] nofun nofun
  rw [List.append_nil, List.append_nil] at htells
  exact (htells h).1

open Classical in
/-- The reader that reads what is printed, and nothing else. -/
noncomputable def read_printed (s : Str) : Option (List RouteMapping) :=
  if h : ∃ routes, to_string_pretty routes = s then some h.choose else none

theorem readsBack_printed : ReadsBack read_printed where
  refuses s routes h := by
    unfold read_printed at h
    split at h
    · next hprinted =>
      rw [← hprinted.choose_spec]
      exact (closed_prefix_iff (List.prefix_refl _)).mpr rfl
    · cases h
  reads routes := by
    have hprinted : ∃ routes', to_string_pretty routes' = to_string_pretty routes := ⟨_, rfl⟩
    rw [read_printed, dif_pos hprinted, to_string_pretty_injective hprinted.choose_spec]

/-- An app registers, and is loaded from the bytes. -/
theorem reachable_on_disk_app :
    ∃ acts file alive, (disk read_printed).Steps System.anyStep none acts file ∧
      load_routes_file read_printed alive file = .ok one_app := by
  refine (reachable_on_disk readsBack_printed one_app).mpr ?_
  have hrun : store.Steps System.anyStep .absent
      [(.calm, .add_route_with_owner (.plain "app.localhost" "app" 7))] (.holds one_app) :=
    .cons rfl trivial .nil
  exact ⟨_, _, fun _ => true, hrun, rfl⟩

end Nsl
