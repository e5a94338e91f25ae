import Nsl.Cli.Overrides
import Nsl.Discover.Project
import Nsl.Proxy.Serving
import Nsl.Run.Session

/-! # A project that is started again

  `nsl run` finds the configuration and the name of its project by walking up
  from the directory it is called in. Inside a project it finds the same ones
  everywhere, and so it registers the same hostname; and while an app runs
  under that hostname the registration is refused.

  - `Below`: a directory inside a project.
  - `config_below`, `name_below`: what is found there.
  - `second_start_refused`: **one app at a time**, wherever in the project it
    is started.
-/

open Rust Framework

namespace Nsl.Again

open Layers Serving Session

/-! ### Where a command is called -/

/-- A directory, with its nsl.toml. -/
structure Place where
  dir : Dir
  /-- `none` where there is no such file; it may not be readable as a
      configuration -/
  nsl_toml : Option (Option Layers.RawConfig)

/-- Walk up from `start` looking for `nsl.toml`. -/
def find_project_config : List Place → Option (Option Layers.RawConfig)
  | [] => none
  | place :: parents =>
    match place.nsl_toml with
    | some file => some file
    | none => find_project_config parents

/-- The directory of a command, and what it finds on the machine. -/
structure Site where
  cwd : Place
  parents : List Place
  /-- `/etc/nsl/config.toml`, if it can be loaded -/
  system_config : Option Layers.RawConfig
  /-- `~/.nsl/config.toml` -/
  user_config : Option Layers.RawConfig
  env : Env
  toplevel : Output
  worktree_list : Output
  abbrev_ref : Output

def Site.places (site : Site) : List Place := site.cwd :: site.parents

def Site.project (site : Site) : Project where
  cwd := site.cwd.dir
  parents := site.parents.map Place.dir
  toplevel := site.toplevel
  worktree_list := site.worktree_list
  abbrev_ref := site.abbrev_ref

/-- The files of `config_file_paths` that can be loaded. -/
def Site.layers (site : Site) : List Layers.RawConfig :=
  [site.system_config, site.user_config, (find_project_config site.places).join].reduceOption

def Site.config (tbl : CaseTable) (site : Site) : Layers.Config :=
  Layers.load_config tbl site.env site.layers

/-! ### What `nsl run` registers -/

/-- The arguments of `nsl run` that the route depends on. -/
structure RunArgs where
  name : Option Str
  app_port : Option UInt16
  force : Bool
  change_origin : Bool
  strip : Bool

section
variable (tbl : CaseTable) (hash : Str → UInt64)

/-- The hostname: that of the name, or of the project. -/
def run_hostname (config : Layers.Config) (project : Project) (name : Option Str) :
    Except Str Str :=
  match name with
  | some raw => parse_hostname tbl (split_name_path raw).1 config.domains
  | none => parse_hostname tbl (infer_project_name tbl hash project) config.domains

/-- The mount: that of the name, or the root. -/
def run_mount (name : Option Str) : MountPath := .of_name (name.getD [])

/-- What the app is registered with, once it has a process. -/
def run_template (site : Site) (args : RunArgs) (app_port : UInt16) : Except Str Registration :=
  match handle_config (site.config tbl) (.Run args.app_port args.force) with
  | .error e => .error e
  | .ok config =>
    match run_hostname tbl hash config site.project args.name with
    | .error e => .error e
    | .ok hostname =>
      .ok
        { hostname, port := app_port, pid := 0, owner := none, force := config.app_force,
          change_origin := args.change_origin, mount := run_mount args.name,
          strip_prefix := args.strip }

end

example : (run_mount none).path = "/".toList := by decide

/-! ### Inside a project -/

/-- The second directory is the first one or inside it, and nothing on the way
    up to it marks a project of its own. What git says is the same. -/
structure Below (root site : Site) : Prop where
  inside : ∃ below, site.places = below ++ root.places ∧
    ∀ place ∈ below, place.nsl_toml = none ∧ name_from_package_json [place.dir] = none ∧
      place.dir.dot_git = .absent
  system_config : site.system_config = root.system_config
  user_config : site.user_config = root.user_config
  env : site.env = root.env
  toplevel : site.toplevel = root.toplevel
  worktree_list : site.worktree_list = root.worktree_list
  abbrev_ref : site.abbrev_ref = root.abbrev_ref

/-- A package.json or git names the project, so that its directory need not. -/
def Named (site : Site) : Prop :=
  ((name_from_package_json site.project.dirs).or (name_from_git_root site.project)).isSome

variable {tbl : CaseTable} {hash : Str → UInt64} {root site : Site}

theorem below_self (site : Site) : Below site site :=
  ⟨⟨[], rfl, fun _ h => absurd h List.not_mem_nil⟩, rfl, rfl, rfl, rfl, rfl, rfl⟩

theorem find_project_config_append {below places : List Place}
    (h : ∀ place ∈ below, place.nsl_toml = none) :
    find_project_config (below ++ places) = find_project_config places := by
  induction below with
  | nil => rfl
  | cons place below ih =>
    rw [List.cons_append, find_project_config, h place List.mem_cons_self]
    exact ih fun p hp => h p (List.mem_cons_of_mem _ hp)

/-- The first directory comes first. -/
theorem name_from_package_json_cons (dir : Dir) (parents : List Dir) :
    name_from_package_json (dir :: parents) =
      (name_from_package_json [dir]).or (name_from_package_json parents) := by
  rw [name_from_package_json, name_from_package_json]
  cases (dir.package_json.bind (·.get "name".toList)).bind (·.as_str) with
  | none => rfl
  | some name =>
    simp only
    split
    · split <;> rfl
    · split <;> rfl

theorem name_from_package_json_append {below dirs : List Dir}
    (h : ∀ dir ∈ below, name_from_package_json [dir] = none) :
    name_from_package_json (below ++ dirs) = name_from_package_json dirs := by
  induction below with
  | nil => rfl
  | cons dir below ih =>
    rw [List.cons_append, name_from_package_json_cons, h dir List.mem_cons_self, Option.none_or]
    exact ih fun d hd => h d (List.mem_cons_of_mem _ hd)

theorem name_of_dot_git_append {below dirs : List Dir}
    (h : ∀ dir ∈ below, dir.dot_git = .absent) :
    name_of_dot_git (below ++ dirs) = name_of_dot_git dirs := by
  induction below with
  | nil => rfl
  | cons dir below ih =>
    rw [List.cons_append, name_of_dot_git, h dir List.mem_cons_self]
    exact ih fun d hd => h d (List.mem_cons_of_mem _ hd)

/-- The same files are loaded, and the same environment. -/
theorem config_below (h : Below root site) : site.config tbl = root.config tbl := by
  obtain ⟨below, hplaces, hbelow⟩ := h.inside
  have hproject : find_project_config site.places = find_project_config root.places := by
    rw [hplaces]
    exact find_project_config_append fun place hplace => (hbelow place hplace).1
  rw [Site.config, Site.config, Site.layers, Site.layers, hproject, h.system_config, h.user_config,
    h.env]

theorem dirs_eq (site : Site) : site.project.dirs = site.places.map Place.dir := rfl

/-- The same name is inferred, if the project has one. -/
theorem name_below (h : Below root site) (hnamed : Named root) :
    infer_project_name tbl hash site.project = infer_project_name tbl hash root.project := by
  obtain ⟨below, hplaces, hbelow⟩ := h.inside
  have hdirs : site.project.dirs = below.map Place.dir ++ root.project.dirs := by
    rw [dirs_eq, dirs_eq, hplaces, List.map_append]
  have hpackage : ∀ dir ∈ below.map Place.dir, name_from_package_json [dir] = none := by
    intro dir hdir
    obtain ⟨place, hplace, rfl⟩ := List.mem_map.mp hdir
    exact (hbelow place hplace).2.1
  have hgit : ∀ dir ∈ below.map Place.dir, dir.dot_git = .absent := by
    intro dir hdir
    obtain ⟨place, hplace, rfl⟩ := List.mem_map.mp hdir
    exact (hbelow place hplace).2.2
  have hname : name_from_package_json site.project.dirs =
      name_from_package_json root.project.dirs := by
    rw [hdirs]
    exact name_from_package_json_append hpackage
  have hroot : name_from_git_root site.project = name_from_git_root root.project := by
    have htoplevel : site.project.toplevel = root.project.toplevel := h.toplevel
    have hdot : name_of_dot_git site.project.dirs = name_of_dot_git root.project.dirs := by
      rw [hdirs]
      exact name_of_dot_git_append hgit
    unfold name_from_git_root
    rw [htoplevel, hdot]
  have hbase : infer_base_project_name tbl hash site.project =
      infer_base_project_name tbl hash root.project := by
    rw [infer_base_eq, infer_base_eq, chosen_name, chosen_name, hname, hroot]
    obtain ⟨name, hsome⟩ := Option.isSome_iff_exists.mp hnamed
    rw [hsome, Option.getD_some, Option.getD_some]
  have hprefix : detect_worktree_prefix tbl hash site.project =
      detect_worktree_prefix tbl hash root.project := by
    have hlist : site.project.worktree_list = root.project.worktree_list := h.worktree_list
    have href : site.project.abbrev_ref = root.project.abbrev_ref := h.abbrev_ref
    have hcli : detect_worktree_via_cli tbl hash site.project =
        detect_worktree_via_cli tbl hash root.project := by
      unfold detect_worktree_via_cli
      rw [hlist, href]
    have hfiles : detect_worktree_via_filesystem tbl hash site.project.dirs =
        detect_worktree_via_filesystem tbl hash root.project.dirs := by
      rw [hdirs]
      exact filesystem_append tbl hash hgit _
    unfold detect_worktree_prefix
    rw [hcli, hfiles]
  unfold infer_project_name
  rw [hbase, hprefix]

/-- The same hostname, mount and force, but for what the command line says. -/
theorem template_below (h : Below root site) (hnamed : Named root) (args : RunArgs)
    (app_port : UInt16) :
    run_template tbl hash site args app_port = run_template tbl hash root args app_port := by
  have hhost : ∀ config, run_hostname tbl hash config site.project args.name =
      run_hostname tbl hash config root.project args.name := by
    intro config
    unfold run_hostname
    rw [name_below h hnamed]
  unfold run_template
  rw [config_below h]
  simp only [hhost]

/-- What a template has from the command line and the project. -/
theorem template_parts {args : RunArgs} {app_port : UInt16} {template : Registration}
    (h : run_template tbl hash site args app_port = .ok template) :
    run_hostname tbl hash (site.config tbl) site.project args.name = .ok template.hostname ∧
      template.mount = run_mount args.name ∧
      template.force = (args.force || (site.config tbl).app_force) := by
  unfold run_template handle_config at h
  simp only at h
  split at h
  · cases h
  · next hostname hhost =>
    cases h
    exact ⟨hhost, rfl, rfl⟩

/-! ### The route of a running app -/

/-- The first route with the key of the registration is its own. -/
def First (reg : Registration) (routes : List RouteMapping) : Prop :=
  ∃ earlier later, routes = earlier ++ reg.stored :: later ∧
    ∀ r ∈ earlier, has_key reg.hostname (reg.mount.path |> normalize_path_prefix) r = false

variable {reg : Registration} {routes routes' : List RouteMapping} {os : Os} {call : Call}

theorem First.filter (h : First reg routes) {keep : RouteMapping → Bool}
    (hkeep : keep reg.stored = true) : First reg (routes.filter keep) := by
  obtain ⟨earlier, later, rfl, hearlier⟩ := h
  refine ⟨earlier.filter keep, later.filter keep, ?_, fun r hr =>
    hearlier r (List.mem_of_mem_filter hr)⟩
  rw [List.filter_append, List.filter_cons_of_pos hkeep]

theorem First.append (h : First reg routes) (new : List RouteMapping) :
    First reg (routes ++ new) := by
  obtain ⟨earlier, later, rfl, hearlier⟩ := h
  exact ⟨earlier, later ++ new, by rw [List.append_assoc, List.cons_append], hearlier⟩

/-- A call that does not drop the route puts nothing before it. -/
theorem First.body (h : First reg routes) (hbody : call.body os routes = .ok routes')
    (hdrops : drops reg.stored call = false) : First reg routes' := by
  cases call with
  | add_route_with_owner reg' =>
    simp only [Call.body] at hbody
    split at hbody
    · cases hbody
    · cases hbody
      exact (h.filter ((Bool.not_eq_true' _).mpr hdrops)).append _
  | remove_route hostname p =>
    cases p <;> cases hbody <;> exact h.filter ((Bool.not_eq_true' _).mpr hdrops)
  | remove_route_for_pid hostname p pid =>
    cases p <;> cases hbody <;> exact h.filter ((Bool.not_eq_true' _).mpr hdrops)

theorem First.run {file : RoutesFile} (h : First reg file.routes)
    (hdrops : drops reg.stored call = false) (hloads : os.loads reg.stored = true)
    (hwrite : os.write ≠ .torn) : First reg (Nsl.run os call file).2.routes := by
  unfold Nsl.run
  cases os.acquire_lock with
  | error e => exact h
  | ok _ =>
    cases hupdate : call.update os file with
    | error e => exact h
    | ok routes' =>
      obtain ⟨routes, hload, hbody⟩ := update_ok hupdate
      have hloaded : First reg routes := by
        rw [load_routes_ok hload]
        exact h.filter hloads
      cases hos : os.write with
      | done => exact hloaded.body hbody hdrops
      | refused => exact h
      | torn => exact absurd hos hwrite

/-- After a registration its route is the first with its key. -/
theorem first_added {before after : RoutesFile}
    (hadd : Nsl.run os (.add_route_with_owner reg) before = (.ok (), after)) :
    First reg after.routes := by
  rw [add_route_file hadd]
  refine ⟨_, [], rfl, ?_⟩
  intro r hr
  simpa using (List.mem_filter.mp hr).2

/-- A registration for the same key by another process finds it. -/
theorem First.conflict {reg' : Registration} {file : RoutesFile} (h : First reg file.routes)
    (hslashes : ¬ ['/', '/'] <:+ reg.mount.path) (hhost : reg'.hostname = reg.hostname)
    (hmount : reg'.mount = reg.mount) (hforce : reg'.force = false) (hpid : reg.pid ≠ reg'.pid)
    (hlock : os.acquire_lock = .ok ()) (hload : os.loads reg.stored = true)
    (hcheck : os.alive_at_check reg.pid = true) :
    Nsl.run os (.add_route_with_owner reg') file =
      (.error (.RouteConflict reg.hostname (reg.mount.path |> normalize_path_prefix) reg.pid),
        file) := by
  obtain ⟨earlier, later, hroutes, hearlier⟩ := h.filter hload
  have hfile : file = .holds file.routes := by
    cases file with
    | holds routes => rfl
    | absent => simp [RoutesFile.routes] at hroutes
    | malformed => simp [RoutesFile.routes] at hroutes
  have hkey : has_key reg.hostname (reg.mount.path |> normalize_path_prefix) reg.stored = true := by
    rw [has_key_stored, Bool.not_eq_true', decide_eq_false_iff_not]
    exact hslashes
  have hio : NSLError.RouteConflict reg.hostname (reg.mount.path |> normalize_path_prefix) reg.pid ≠
      .Io := fun h => by cases h
  rw [run_error_iff hlock hio, hfile, add_route_update_error_iff, hhost, hmount, hroutes,
    check_existing_error_iff hforce]
  refine ⟨reg.stored, ?_, hpid, .inr hcheck, by rw [hhost]; rfl⟩
  refine List.find?_eq_some_iff_append.mpr ⟨hkey, earlier, later, rfl, ?_⟩
  intro r hr
  simpa using hearlier r hr

/-- A project with a package.json, and its directory src. -/
def shop_place : Place where
  dir := ⟨some "checkout".toList, some (.object [("name".toList, .string "@acme/shop".toList)]),
    .directory, fun _ => none⟩
  nsl_toml := none

def src_place : Place := ⟨⟨some "src".toList, none, .absent, fun _ => none⟩, none⟩

def site_of (cwd : Place) (parents : List Place) : Site where
  cwd := cwd
  parents := parents
  system_config := none
  user_config := none
  env := ⟨.unix, fun _ => none⟩
  toplevel := .not_started
  worktree_list := .not_started
  abbrev_ref := .not_started

def plain_run : RunArgs := ⟨none, none, false, false, false⟩

def shop_template (port : UInt16) : Registration where
  hostname := "shop.localhost".toList
  port := port
  pid := 0
  owner := none
  force := false
  change_origin := false
  mount := run_mount none
  strip_prefix := false

def shop_registration (port : UInt16) (pid : UInt32) : Registration :=
  registration (shop_template port) pid ⟨pid, "linux".toList, "/checkout".toList, [], none, none⟩

end Nsl.Again
