import Nsl.Proxy.Poller
import Nsl.Rust.Json
import Nsl.Rust.Utf8

/-! # Saving the routes

  `save_routes` prints the routes as JSON and writes the text over the file:
  the file is truncated first, and then filled by one write or several. A crash
  or a failed write leaves the text cut short, and readers that take no lock
  may look at the file in between.

  The reader of serde_json is a parameter. What is needed of it is that it
  reads back what was printed, and refuses a text in which a string, an array
  or an object is still open.

  - `load_torn`: a text that was cut short is not loaded at all.
  - `save_refines`: what the store is told of a write.
  - `save_all_or_nothing_iff`: the points of a save at which the file holds the
    old routes or the new ones.
-/

open Rust Rust.Http

namespace Nsl

/-! ### The text of the routes -/

def RouteOwner.to_json (owner : RouteOwner) : Json.Value :=
  Json.object [
    ("pid".toList, Json.number owner.pid.toNat),
    ("platform".toList, Json.string owner.platform),
    ("cwd".toList, Json.string owner.cwd),
    ("command".toList, Json.array (owner.command.map Json.string)),
    ("process_group".toList, Json.option (fun g => Json.number g.toNat) owner.process_group),
    ("start_time".toList, Json.option (fun t => Json.number t.toNat) owner.start_time)]

def RouteMapping.to_json (r : RouteMapping) : Json.Value :=
  Json.object [
    ("hostname".toList, Json.string r.hostname),
    ("port".toList, Json.number r.port.toNat),
    ("pid".toList, Json.number r.pid.toNat),
    ("change_origin".toList, Json.bool r.change_origin),
    ("path_prefix".toList, Json.string r.path_prefix),
    ("strip_prefix".toList, Json.bool r.strip_prefix),
    ("owner".toList, Json.option RouteOwner.to_json r.owner)]

/-- `serde_json::to_string_pretty`, for a list of routes. -/
def to_string_pretty (routes : List RouteMapping) : Str :=
  Json.array (routes.map RouteMapping.to_json) 0

theorem level_owner (owner : RouteOwner) : owner.to_json.Level := by
  have hcommand : (Json.array (owner.command.map Json.string)).Level := by
    apply Json.level_array
    intro v hv
    obtain ⟨s, _, rfl⟩ := List.mem_map.mp hv
    exact Json.level_string s
  have hgroup := Json.level_option (fun g : UInt32 => Json.level_number g.toNat)
    owner.process_group
  have htime := Json.level_option (fun t : UInt64 => Json.level_number t.toNat) owner.start_time
  apply Json.level_object
  simp [Json.level_number, Json.level_string, hcommand, hgroup, htime]

theorem level_route (r : RouteMapping) : r.to_json.Level := by
  have howner := Json.level_option level_owner r.owner
  apply Json.level_object
  simp [Json.level_number, Json.level_string, Json.level_bool, howner]

theorem level_routes (routes : List RouteMapping) :
    ∀ v ∈ routes.map RouteMapping.to_json, v.Level := by
  intro v hv
  obtain ⟨r, _, rfl⟩ := List.mem_map.mp hv
  exact level_route r

/-- The text of a list of routes is closed at its end, and not before. -/
theorem closed_prefix_iff {routes : List RouteMapping} {p : Str}
    (hp : p <+: to_string_pretty routes) : Json.Closed p ↔ p = to_string_pretty routes := by
  refine ⟨?_, ?_⟩
  · intro hclosed
    by_contra hwhole
    exact Json.not_closed_of_array_prefix (level_routes routes) hp hwhole hclosed
  · rintro rfl
    exact Json.closed_array (level_routes routes) 0

/-! ### The file while it is saved -/

/-- How far a save has come: the file is as before, or it has been truncated
    and holds this many bytes of the new text. -/
inductive SavePoint where
  | before
  | written (count : Nat)
deriving DecidableEq

/-- The bytes of the text of a list of routes. -/
def routes_bytes (routes : List RouteMapping) : List UInt8 := bytes (to_string_pretty routes)

/-- The file at a point of a save. -/
def SavePoint.file (old : Option (List UInt8)) (new : List RouteMapping) :
    SavePoint → Option (List UInt8)
  | .before => old
  | .written count => some ((routes_bytes new).take count)

/-- The save has not touched the file, or has written all of it. -/
def SavePoint.Whole (new : List RouteMapping) : SavePoint → Prop
  | .before => True
  | .written count => (routes_bytes new).length ≤ count

/-- The file as an earlier save, or none, has left it. -/
def Saved (routes : List RouteMapping) (file : Option (List UInt8)) : Prop :=
  file = some (routes_bytes routes) ∨ (file = none ∧ routes = [])

section reader

variable (from_str : Str → Option (List RouteMapping))

/-- `RouteStore::load_routes`, on the bytes of the file. -/
def load_routes_file (is_process_alive : UInt32 → Bool) :
    Option (List UInt8) → Except NSLError (List RouteMapping)
  | none => .ok []
  | some b =>
    match read_to_string b with
    | none => .error .Io
    | some raw =>
      match from_str raw with
      | none => .error .Json
      | some routes => .ok (routes.filter fun r => r.pid == 0 || is_process_alive r.pid)

/-- The routes of live processes, and the static ones. -/
def live (is_process_alive : UInt32 → Bool) (routes : List RouteMapping) : List RouteMapping :=
  routes.filter fun r => r.pid == 0 || is_process_alive r.pid

/-- What the reader of serde_json refuses: a text in which a string, an array
    or an object is still open, and no text at all. -/
def RefusesOpen : Prop := ∀ s routes, from_str s = some routes → Json.Closed s

variable {from_str}

theorem load_saved {alive : UInt32 → Bool} {routes : List RouteMapping}
    {file : Option (List UInt8)} (hread : from_str (to_string_pretty routes) = some routes)
    (hsaved : Saved routes file) :
    load_routes_file from_str alive file = .ok (live alive routes) := by
  rcases hsaved with rfl | ⟨rfl, rfl⟩
  · simp only [load_routes_file, routes_bytes, read_to_string_bytes, hread]
    rfl
  · rfl

/-- What is left of a text that was cut short is refused, if it is text. -/
theorem refused_of_torn {new : List RouteMapping} {count : Nat} {raw : Str}
    (hrefuses : RefusesOpen from_str) (hcount : count < (routes_bytes new).length)
    (hraw : read_to_string ((routes_bytes new).take count) = some raw) : from_str raw = none := by
  cases hlist : from_str raw with
  | none => rfl
  | some routes =>
    -- the bytes would be those of a proper prefix of the text
    have hbytes := bytes_of_read_to_string hraw
    have hprefix : raw <+: to_string_pretty new := by
      apply prefix_of_bytes_prefix
      rw [← hbytes]
      exact List.take_prefix count _
    have hwhole := (closed_prefix_iff hprefix).mp (hrefuses raw routes hlist)
    rw [hwhole] at hbytes
    have hlen := congrArg List.length hbytes
    rw [List.length_take] at hlen
    unfold routes_bytes at hlen hcount
    omega

/-- **A text that was cut short is not loaded.** -/
theorem load_torn {alive : UInt32 → Bool} {new : List RouteMapping} {count : Nat}
    (hrefuses : RefusesOpen from_str) (hcount : count < (routes_bytes new).length) :
    ∃ e, load_routes_file from_str alive (some ((routes_bytes new).take count)) = .error e := by
  simp only [load_routes_file]
  split
  · exact ⟨_, rfl⟩
  · next raw hraw =>
    rw [refused_of_torn hrefuses hcount hraw]
    exact ⟨_, rfl⟩

theorem file_of_whole {old : Option (List UInt8)} {new : List RouteMapping} {count : Nat}
    (h : (routes_bytes new).length ≤ count) :
    (SavePoint.written count).file old new = some (routes_bytes new) :=
  congrArg some (List.take_of_length_le h)

/-! ### What the store is told -/

/-- The file as the store sees it. -/
def RoutesFile.of_bytes (from_str : Str → Option (List RouteMapping)) :
    Option (List UInt8) → RoutesFile
  | none => .absent
  | some b =>
    match (read_to_string b).bind from_str with
    | some routes => .holds routes
    | none => .malformed

/-- A load does not see more of the file than the store does, up to the kind of
    the error. -/
theorem load_of_bytes (alive : UInt32 → Bool) (file : Option (List UInt8)) :
    (load_routes_file from_str alive file).toOption =
      (load_routes alive (.of_bytes from_str file)).toOption := by
  cases file with
  | none => rfl
  | some b =>
    simp only [load_routes_file, RoutesFile.of_bytes]
    cases read_to_string b with
    | none => rfl
    | some raw =>
      simp only [Option.bind_some]
      cases from_str raw <;> rfl

/-- How a save that came to this point and then stopped counts as a write. -/
def SavePoint.outcome (new : List RouteMapping) : SavePoint → WriteOutcome
  | .before => .refused
  | .written count => if (routes_bytes new).length ≤ count then .done else .torn

/-- A save on the bytes of the file is a save of the store. -/
theorem save_refines {old : Option (List UInt8)} {new : List RouteMapping} (point : SavePoint)
    (hrefuses : RefusesOpen from_str) (hread : from_str (to_string_pretty new) = some new) :
    RoutesFile.of_bytes from_str (point.file old new) =
      (save_routes (point.outcome new) new (.of_bytes from_str old)).2 := by
  cases point with
  | before => rfl
  | written count =>
    simp only [SavePoint.outcome]
    by_cases hcount : (routes_bytes new).length ≤ count
    · rw [if_pos hcount, file_of_whole hcount]
      simp only [RoutesFile.of_bytes, routes_bytes, read_to_string_bytes, Option.bind_some, hread]
      rfl
    · rw [if_neg hcount]
      simp only [RoutesFile.of_bytes, SavePoint.file]
      cases hraw : read_to_string ((routes_bytes new).take count) with
      | none => rfl
      | some raw =>
        rw [Option.bind_some, refused_of_torn hrefuses (Nat.lt_of_not_le hcount) hraw]
        rfl

/-! ### All or nothing -/

variable (from_str)

/-- A load of the file succeeds, with the live part of the old routes or of the
    new ones. -/
def LoadsEither (alive : UInt32 → Bool) (old new : List RouteMapping)
    (file : Option (List UInt8)) : Prop :=
  load_routes_file from_str alive file = .ok (live alive old) ∨
    load_routes_file from_str alive file = .ok (live alive new)

variable {from_str}

theorem loads_at_whole {alive : UInt32 → Bool} {old new : List RouteMapping}
    {file : Option (List UInt8)} {point : SavePoint}
    (hold : from_str (to_string_pretty old) = some old)
    (hnew : from_str (to_string_pretty new) = some new) (hsaved : Saved old file)
    (hwhole : point.Whole new) :
    load_routes_file from_str alive (point.file file new) =
      .ok (live alive (if point = .before then old else new)) := by
  cases point with
  | before => exact load_saved hold hsaved
  | written count =>
    rw [file_of_whole hwhole]
    exact load_saved hnew (.inl rfl)

/-- At every other point the load fails. -/
theorem fails_at_torn (alive : UInt32 → Bool) {new : List RouteMapping}
    (file : Option (List UInt8)) {point : SavePoint} (hrefuses : RefusesOpen from_str)
    (htorn : ¬ point.Whole new) :
    ∃ e, load_routes_file from_str alive (point.file file new) = .error e := by
  cases point with
  | before => exact absurd trivial htorn
  | written count => exact load_torn hrefuses (Nat.lt_of_not_le htorn)

theorem loads_either_iff {alive : UInt32 → Bool} {old new : List RouteMapping}
    {file : Option (List UInt8)} {point : SavePoint} (hrefuses : RefusesOpen from_str)
    (hold : from_str (to_string_pretty old) = some old)
    (hnew : from_str (to_string_pretty new) = some new) (hsaved : Saved old file) :
    LoadsEither from_str alive old new (point.file file new) ↔ point.Whole new := by
  refine ⟨?_, ?_⟩
  · intro hloads
    by_contra htorn
    obtain ⟨e, he⟩ := fails_at_torn alive file hrefuses htorn
    rcases hloads with h | h <;> rw [he] at h <;> cases h
  · intro hwhole
    unfold LoadsEither
    rw [loads_at_whole hold hnew hsaved hwhole]
    by_cases hbefore : point = .before
    · exact .inl (by rw [if_pos hbefore])
    · exact .inr (by rw [if_neg hbefore])

/-- What a poll round that saw the file puts into the cache. -/
theorem polled_of_load (alive : UInt32 → Bool) (file : Option (List UInt8)) :
    Poller.load_routes_from_disk alive (.of_bytes from_str file) =
      (load_routes_file from_str alive file).toOption.getD [] := by
  rw [load_of_bytes]
  unfold Poller.load_routes_from_disk
  cases load_routes alive (RoutesFile.of_bytes from_str file) <;> rfl

/-- The cache becomes empty where the load fails. -/
theorem polled_either_iff {alive : UInt32 → Bool} {old new : List RouteMapping}
    {file : Option (List UInt8)} {point : SavePoint} (hrefuses : RefusesOpen from_str)
    (hold : from_str (to_string_pretty old) = some old)
    (hnew : from_str (to_string_pretty new) = some new) (hsaved : Saved old file) :
    (Poller.load_routes_from_disk alive (.of_bytes from_str (point.file file new)) =
        live alive old ∨
      Poller.load_routes_from_disk alive (.of_bytes from_str (point.file file new)) =
        live alive new) ↔
      point.Whole new ∨ live alive old = [] ∨ live alive new = [] := by
  rw [polled_of_load]
  by_cases hwhole : point.Whole new
  · rw [loads_at_whole hold hnew hsaved hwhole]
    refine iff_of_true ?_ (.inl hwhole)
    by_cases hbefore : point = .before
    · exact .inl (by rw [if_pos hbefore]; rfl)
    · exact .inr (by rw [if_neg hbefore]; rfl)
  · obtain ⟨e, he⟩ := fails_at_torn alive file hrefuses hwhole
    rw [he]
    simp only [Except.toOption, Option.getD_none, hwhole, false_or]
    exact or_congr eq_comm eq_comm

/-- A save that fails after it has touched the file loses the old routes. -/
theorem keeps_old_iff {alive : UInt32 → Bool} {old new : List RouteMapping}
    {file : Option (List UInt8)} {point : SavePoint} (hrefuses : RefusesOpen from_str)
    (hold : from_str (to_string_pretty old) = some old) (hsaved : Saved old file)
    (hfailed : (save_routes (point.outcome new) new (.of_bytes from_str file)).1 ≠ .ok ()) :
    load_routes_file from_str alive (point.file file new) = .ok (live alive old) ↔
      point = .before := by
  cases point with
  | before => exact iff_of_true (load_saved hold hsaved) rfl
  | written count =>
    have htorn : ¬ (SavePoint.written count).Whole new := by
      intro hwhole
      apply hfailed
      have hdone : (SavePoint.written count).outcome new = .done := if_pos hwhole
      rw [hdone]
      rfl
    obtain ⟨e, he⟩ := fails_at_torn alive file hrefuses htorn
    rw [he]
    exact iff_of_false nofun nofun

/-- **A save is all or nothing** exactly at the points before the truncation
    and after the last byte. In between a load fails; a poll round then empties
    the cache, and a call that stops there with an error has lost the old
    routes. -/
theorem save_all_or_nothing_iff (alive : UInt32 → Bool) (old new : List RouteMapping)
    (file : Option (List UInt8)) (point : SavePoint) (hrefuses : RefusesOpen from_str)
    (hold : from_str (to_string_pretty old) = some old)
    (hnew : from_str (to_string_pretty new) = some new) (hsaved : Saved old file) :
    (LoadsEither from_str alive old new (point.file file new) ↔ point.Whole new) ∧
    ((Poller.load_routes_from_disk alive (.of_bytes from_str (point.file file new)) =
        live alive old ∨
      Poller.load_routes_from_disk alive (.of_bytes from_str (point.file file new)) =
        live alive new) ↔
      point.Whole new ∨ live alive old = [] ∨ live alive new = []) ∧
    ((save_routes (point.outcome new) new (.of_bytes from_str file)).1 ≠ .ok () →
      (load_routes_file from_str alive (point.file file new) = .ok (live alive old) ↔
        point = .before)) :=
  ⟨loads_either_iff hrefuses hold hnew hsaved, polled_either_iff hrefuses hold hnew hsaved,
    keeps_old_iff hrefuses hold hsaved⟩

end reader

/-! ### A second app is registered -/

/-- The routes before and after. -/
def one_app : List RouteMapping := [(Registration.plain "app.localhost" "app" 7).route "/".toList]
def two_apps : List RouteMapping :=
  one_app ++ [(Registration.plain "web.localhost" "web" 8).route "/".toList]

/-- A reader that knows the texts of these two lists. -/
def read_apps (s : Str) : Option (List RouteMapping) :=
  if s = to_string_pretty one_app then some one_app
  else if s = to_string_pretty two_apps then some two_apps
  else none

theorem read_apps_refuses : RefusesOpen read_apps := by
  intro s routes h
  unfold read_apps at h
  split at h
  · next hs =>
    rw [hs]
    exact (closed_prefix_iff (List.prefix_refl _)).mpr rfl
  · split at h
    · next hs =>
      rw [hs]
      exact (closed_prefix_iff (List.prefix_refl _)).mpr rfl
    · cases h

set_option maxRecDepth 8000 in
theorem apps_read :
    read_apps (to_string_pretty one_app) = some one_app ∧
      read_apps (to_string_pretty two_apps) = some two_apps := by
  have hne : to_string_pretty two_apps ≠ to_string_pretty one_app := by decide
  exact ⟨if_pos rfl, (if_neg hne).trans (if_pos rfl)⟩

/-- After the last byte the two apps are loaded. -/
theorem two_apps_loaded :
    LoadsEither read_apps (fun _ => true) one_app two_apps
      ((SavePoint.written (routes_bytes two_apps).length).file (some (routes_bytes one_app))
        two_apps) := by
  have h := save_all_or_nothing_iff (fun _ => true) one_app two_apps (some (routes_bytes one_app))
    (.written (routes_bytes two_apps).length) read_apps_refuses apps_read.1 apps_read.2 (.inl rfl)
  exact h.1.mpr (Nat.le_refl _)

/-- A save that is cut short right after the truncation: nothing is loaded, and
    the cache becomes empty, though the app is alive before and after. -/
theorem truncated_file_not_loaded :
    (SavePoint.written 0).file (some (routes_bytes one_app)) two_apps = some [] ∧
    load_routes_file read_apps (fun _ => true) (some []) = .error .Json ∧
    ¬ LoadsEither read_apps (fun _ => true) one_app two_apps (some []) ∧
    Poller.load_routes_from_disk (fun _ => true) (.of_bytes read_apps (some [])) = [] ∧
    live (fun _ => true) one_app = one_app ∧ live (fun _ => true) two_apps = two_apps := by
  have hload : load_routes_file read_apps (fun _ => true) (some []) = .error .Json := by decide
  refine ⟨rfl, hload, ?_, by decide, rfl, rfl⟩
  intro h
  unfold LoadsEither at h
  rw [hload] at h
  rcases h with h | h <;> cases h

end Nsl
