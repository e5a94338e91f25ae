import Nsl.Config.Domains
import Nsl.Config.Listen
import Nsl.Config.StateDir

/-! # The layers of the configuration

  Layers are merged field by field, lowest priority first, and the environment
  comes last. Most settings are one field. The address of the proxy is three:
  `listen`, and the older `port` and `bind`; which of them count is decided
  when the layers are merged already.

  - `with_env_overrides_eq`: the environment is a layer on top.
  - `Setting`: what is merged field by field, and so set by the last layer that
    sets it (`Setting.merged`).
  - `higher_layers_win_iff`: when the address is that of the last layer that
    says anything about it; every other setting always is.
-/

open Rust

namespace Nsl.Layers

/-! ### Layers -/

/-- Display override values for a single domain suffix. -/
structure RawDomainDisplay where
  https : Option Bool
  port : Option UInt16
deriving DecidableEq

structure RawProxy where
  listen : Option Str
  port : Option UInt16
  https : Option Bool
  max_hops : Option UInt8
  domains : Option (List Str)
  /-- in the order of the keys -/
  display : Option (List (Str × RawDomainDisplay))
  bind : Option Str
deriving DecidableEq

structure RawApp where
  port : Option UInt16
  port_range_start : Option UInt16
  port_range_end : Option UInt16
  force : Option Bool
  ready_timeout : Option UInt64
deriving DecidableEq

/-- A layer. -/
structure RawConfig where
  proxy : Option RawProxy
  app : Option RawApp
  paths : Option RawPaths

def RawProxy.default : RawProxy := ⟨none, none, none, none, none, none, none⟩

def RawConfig.default : RawConfig := ⟨none, none, none⟩

def RawProxy.merge (a b : RawProxy) : RawProxy where
  listen := b.listen.or a.listen
  port := b.port.or a.port
  https := b.https.or a.https
  max_hops := b.max_hops.or a.max_hops
  domains := b.domains.or a.domains
  display := b.display.or a.display
  bind := b.bind.or a.bind

def RawApp.merge (a b : RawApp) : RawApp where
  port := b.port.or a.port
  port_range_start := b.port_range_start.or a.port_range_start
  port_range_end := b.port_range_end.or a.port_range_end
  force := b.force.or a.force
  ready_timeout := b.ready_timeout.or a.ready_timeout

/-- Merge another layer on top (it wins on conflicts). -/
def RawConfig.merge (self other : RawConfig) : RawConfig where
  proxy := merge_opt self.proxy other.proxy RawProxy.merge
  app := merge_opt self.app other.app RawApp.merge
  paths := merge_opt self.paths other.paths fun a b => ⟨b.state_dir.or a.state_dir⟩

/-! ### The environment -/

/-- `NSL_LISTEN`, unless it is blank. -/
def env_listen (env : Env) : Option Str :=
  ((env.var "NSL_LISTEN".toList).map trim).filter (· ≠ [])

def env_https (env : Env) : Option Bool :=
  (env.var "NSL_HTTPS".toList).map fun val =>
    val ∈ ["1".toList, "true".toList, "yes".toList]

/-- `NSL_DOMAINS`, unless it names none. -/
def env_domains (env : Env) : Option (List Str) :=
  ((env.var "NSL_DOMAINS".toList).map fun val =>
    ((val.splitOn ',').map trim).filter (· ≠ [])).filter (· ≠ [])

/-- Set a field of the proxy section. -/
def RawConfig.set_proxy (self : RawConfig) (set : RawProxy → RawProxy) : RawConfig :=
  { self with proxy := some (set (self.proxy.getD .default)) }

/-- Apply env var overrides on top of a layer. -/
def RawConfig.with_env_overrides (env : Env) (self : RawConfig) : RawConfig :=
  let self := match env_listen env with
    | some listen => self.set_proxy fun p => { p with listen := some listen }
    | none => self
  let self := match env_https env with
    | some https => self.set_proxy fun p => { p with https := some https }
    | none => self
  let self := match env_domains env with
    | some domains => self.set_proxy fun p => { p with domains := some domains }
    | none => self
  match env.var NSL_STATE_DIR with
  | some val => { self with paths := some { self.paths.getD ⟨none⟩ with state_dir := some val } }
  | none => self

/-- The environment as a layer. -/
def env_layer (env : Env) : RawConfig where
  proxy :=
    match env_listen env, env_https env, env_domains env with
    | none, none, none => none
    | listen, https, domains =>
      some { RawProxy.default with listen := listen, https := https, domains := domains }
  app := none
  paths := (env.var NSL_STATE_DIR).map fun val => ⟨some val⟩

/-- The environment is a layer on top. -/
theorem with_env_overrides_eq (env : Env) (raw : RawConfig) :
    raw.with_env_overrides env = raw.merge (env_layer env) := by
  obtain ⟨proxy, app, paths⟩ := raw
  unfold RawConfig.with_env_overrides RawConfig.merge env_layer
  cases env_listen env <;> cases env_https env <;> cases env_domains env <;>
    cases env.var NSL_STATE_DIR <;> cases proxy <;> cases app <;> cases paths <;>
    simp [RawConfig.set_proxy, RawProxy.default, RawProxy.merge, merge_opt]

/-! ### Resolving -/

/-- Resolved config with concrete values. -/
structure Config where
  proxy_port : UInt16
  proxy_https : Bool
  max_hops : UInt8
  domains : List Str
  domain_displays : List DomainDisplay
  proxy_bind : IpAddr
  app_port : Option UInt16
  app_port_range : UInt16 × UInt16
  app_force : Bool
  ready_timeout : UInt64
  state_dir : Option PathBuf

def Config.default : Config where
  proxy_port := DEFAULT_PORT
  proxy_https := false
  max_hops := 5
  domains := default_domains
  domain_displays := []
  proxy_bind := .V4 .LOCALHOST
  app_port := none
  app_port_range := (20000, 29999)
  app_force := false
  ready_timeout := 30
  state_dir := none

/-- The default address. -/
def default_listen : IpAddr × UInt16 := (Config.default.proxy_bind, Config.default.proxy_port)

/-- What `listen` says, or the default where it says nothing readable. -/
def listen_or_default (raw : Str) : IpAddr × UInt16 :=
  match parse_listen raw with
  | .ok listen => listen
  | .error _ => default_listen

def bind_or_default (bind : Option Str) : IpAddr :=
  (bind.bind parse_ip_addr).getD default_listen.1

def port_or_default (port : Option UInt16) : UInt16 := port.getD default_listen.2

def resolve_proxy_listen (proxy : Option RawProxy) : IpAddr × UInt16 :=
  match proxy.bind (·.listen) with
  | some raw => listen_or_default raw
  | none => (bind_or_default (proxy.bind (·.bind)), port_or_default (proxy.bind (·.port)))

/-- Normalize raw domain display entries: lowercase suffixes, default to HTTPS,
    drop entries with empty suffix. -/
def resolve_domain_displays (tbl : CaseTable) (raw : List (Str × RawDomainDisplay)) :
    List DomainDisplay :=
  raw.filterMap fun entry =>
    let suffix := to_lowercase tbl (trim entry.1)
    if suffix = [] then none
    else some { suffix := suffix, https := entry.2.https.getD true, port := entry.2.port }

/-- Resolve into a `Config` with defaults applied. -/
def RawConfig.resolve (tbl : CaseTable) (self : RawConfig) : Config where
  proxy_port := (resolve_proxy_listen self.proxy).2
  proxy_https := (self.proxy.bind (·.https)).getD Config.default.proxy_https
  max_hops := (self.proxy.bind (·.max_hops)).getD Config.default.max_hops
  domains := ensure_localhost ((self.proxy.bind (·.domains)).getD Config.default.domains)
  domain_displays :=
    ((self.proxy.bind (·.display)).map (resolve_domain_displays tbl)).getD []
  proxy_bind := (resolve_proxy_listen self.proxy).1
  app_port := self.app.bind (·.port)
  app_port_range :=
    ((self.app.bind (·.port_range_start)).getD Config.default.app_port_range.1,
      (self.app.bind (·.port_range_end)).getD Config.default.app_port_range.2)
  app_force := (self.app.bind (·.force)).getD Config.default.app_force
  ready_timeout := (self.app.bind (·.ready_timeout)).getD Config.default.ready_timeout
  state_dir := (self.paths.bind (·.state_dir)).map .from_str

def merged (layers : List RawConfig) : RawConfig := layers.foldl RawConfig.merge .default

/-- Load the fully resolved config by merging all layers. -/
def load_config (tbl : CaseTable) (env : Env) (layers : List RawConfig) : Config :=
  ((merged layers).with_env_overrides env).resolve tbl

/-- The environment is one more layer. -/
theorem load_config_eq (tbl : CaseTable) (env : Env) (layers : List RawConfig) :
    load_config tbl env layers = (merged (layers ++ [env_layer env])).resolve tbl := by
  rw [load_config, with_env_overrides_eq]
  simp [merged]

/-- The state directory is set by the paths alone. -/
theorem load_config_paths (tbl : CaseTable) (env : Env) (layers : List RawConfig)
    (proxy_port : UInt16) :
    (load_config tbl env layers).state_dir =
      (Nsl.load_config env (layers.map fun layer => ⟨layer.paths⟩) proxy_port).state_dir := by
  have hmerged : ∀ raw : RawConfig, (layers.foldl RawConfig.merge raw).paths =
      ((layers.map fun layer => (⟨layer.paths⟩ : Nsl.RawConfig)).foldl Nsl.RawConfig.merge
        ⟨raw.paths⟩).paths := by
    induction layers with
    | nil => exact fun _ => rfl
    | cons layer layers ih => exact fun raw => ih (raw.merge layer)
  have henv : ∀ raw : RawConfig, (raw.with_env_overrides env).paths =
      ((⟨raw.paths⟩ : Nsl.RawConfig).with_env_overrides env).paths := by
    intro raw
    unfold RawConfig.with_env_overrides Nsl.RawConfig.with_env_overrides
    cases env_listen env <;> cases env_https env <;> cases env_domains env <;>
      cases env.var NSL_STATE_DIR <;> rfl
  unfold load_config Nsl.load_config RawConfig.resolve Nsl.RawConfig.resolve Nsl.RawConfig.state_dir
  rw [henv, merged, hmerged]
  rfl

/-! ### Settings -/

/-- What is merged field by field. -/
structure Setting (α : Type) where
  get : RawConfig → Option α
  unset : get .default = none
  merge : ∀ a b, get (a.merge b) = (get b).or (get a)

theorem bind_merge_opt {α β : Type} {a b : Option β} {f : β → β → β} {g : β → Option α}
    (h : ∀ x y, g (f x y) = (g y).or (g x)) :
    (merge_opt a b f).bind g = (b.bind g).or (a.bind g) := by
  cases a <;> cases b <;> simp [merge_opt, h]

/-- A field of the proxy section. -/
def Setting.proxy {α : Type} (g : RawProxy → Option α)
    (h : ∀ a b, g (RawProxy.merge a b) = (g b).or (g a)) : Setting α where
  get raw := raw.proxy.bind g
  unset := rfl
  merge _ _ := bind_merge_opt h

/-- A field of the app section. -/
def Setting.app {α : Type} (g : RawApp → Option α)
    (h : ∀ a b, g (RawApp.merge a b) = (g b).or (g a)) : Setting α where
  get raw := raw.app.bind g
  unset := rfl
  merge _ _ := bind_merge_opt h

def listen : Setting Str := .proxy (·.listen) fun _ _ => rfl
def port : Setting UInt16 := .proxy (·.port) fun _ _ => rfl
def bind : Setting Str := .proxy (·.bind) fun _ _ => rfl
def https : Setting Bool := .proxy (·.https) fun _ _ => rfl
def max_hops : Setting UInt8 := .proxy (·.max_hops) fun _ _ => rfl
def domains : Setting (List Str) := .proxy (·.domains) fun _ _ => rfl
def display : Setting (List (Str × RawDomainDisplay)) := .proxy (·.display) fun _ _ => rfl
def app_port : Setting UInt16 := .app (·.port) fun _ _ => rfl
def port_range_start : Setting UInt16 := .app (·.port_range_start) fun _ _ => rfl
def port_range_end : Setting UInt16 := .app (·.port_range_end) fun _ _ => rfl
def force : Setting Bool := .app (·.force) fun _ _ => rfl
def ready_timeout : Setting UInt64 := .app (·.ready_timeout) fun _ _ => rfl

def state_dir : Setting Str where
  get raw := raw.paths.bind (·.state_dir)
  unset := rfl
  merge _ _ := bind_merge_opt fun _ _ => rfl

/-- The value in the last layer that sets it. -/
def Setting.last {α : Type} (f : Setting α) (layers : List RawConfig) : Option α :=
  layers.reverse.findSome? f.get

/-- The last layer that sets a setting wins. -/
theorem Setting.merged {α : Type} (f : Setting α) (layers : List RawConfig) :
    f.get (Layers.merged layers) = f.last layers := by
  unfold Setting.last
  induction layers using List.reverseRecOn with
  | nil => exact f.unset
  | append_singleton layers layer ih =>
    have hmerged : Layers.merged (layers ++ [layer]) = (Layers.merged layers).merge layer := by
      simp [Layers.merged]
    rw [hmerged, f.merge, ih, List.reverse_concat, List.findSome?_cons]
    cases f.get layer <;> rfl

/-! ### Which layer wins -/

/-- The layer says something about the address. -/
def speaks (layer : RawConfig) : Bool :=
  (listen.get layer).isSome || (port.get layer).isSome || (bind.get layer).isSome

/-- The address is that of the last layer that says anything about it, and
    every other setting is what the last layer says that sets it. Of the domain
    suffixes, `localhost` is always one. -/
structure HigherWin (tbl : CaseTable) (layers : List RawConfig) (config : Config) : Prop where
  address : (config.proxy_bind, config.proxy_port) =
    match layers.reverse.find? speaks with
    | some layer => resolve_proxy_listen layer.proxy
    | none => default_listen
  https : config.proxy_https = (https.last layers).getD Config.default.proxy_https
  max_hops : config.max_hops = (max_hops.last layers).getD Config.default.max_hops
  domains : config.domains = ensure_localhost ((domains.last layers).getD Config.default.domains)
  displays : config.domain_displays =
    ((display.last layers).map (resolve_domain_displays tbl)).getD Config.default.domain_displays
  app_port : config.app_port = (app_port.last layers).or Config.default.app_port
  range_start : config.app_port_range.1 =
    (port_range_start.last layers).getD Config.default.app_port_range.1
  range_end : config.app_port_range.2 =
    (port_range_end.last layers).getD Config.default.app_port_range.2
  force : config.app_force = (force.last layers).getD Config.default.app_force
  ready_timeout : config.ready_timeout =
    (ready_timeout.last layers).getD Config.default.ready_timeout
  state_dir : config.state_dir =
    ((state_dir.last layers).map .from_str).or Config.default.state_dir

/-- What the layers below say of the address makes no difference to the layer:
    it has a `listen` of its own; or none has one, and what they have for `bind`
    and `port` where the layer has nothing is the default; or their `listen` is
    the address that the layer means. -/
def Undisturbed (layers : List RawConfig) (layer : RawConfig) : Prop :=
  (listen.get layer).isSome = true ∨
    match listen.last layers with
    | some raw =>
      listen_or_default raw = (bind_or_default (bind.get layer), port_or_default (port.get layer))
    | none =>
      bind_or_default (bind.last layers) = bind_or_default (bind.get layer) ∧
        port_or_default (port.last layers) = port_or_default (port.get layer)

/-- What the last layer that speaks sets, is set. -/
theorem Setting.last_of_find {α : Type} {f : Setting α} {layers : List RawConfig}
    {layer : RawConfig} {v : α} (hfind : layers.reverse.find? speaks = some layer)
    (hspeaks : ∀ l, (f.get l).isSome = true → speaks l = true) (hv : f.get layer = some v) :
    f.last layers = some v := by
  obtain ⟨_, above, below, hsplit, hsilent⟩ := List.find?_eq_some_iff_append.mp hfind
  have hnone : above.findSome? f.get = none := by
    rw [List.findSome?_eq_none_iff]
    intro l hl
    rw [← Option.not_isSome_iff_eq_none]
    intro hsome
    have := hsilent l hl
    rw [hspeaks l hsome] at this
    cases this
  rw [Setting.last, hsplit, List.findSome?_append, hnone, List.findSome?_cons, hv]
  rfl

/-- When no layer speaks, nothing is set. -/
theorem Setting.last_of_silent {α : Type} {f : Setting α} {layers : List RawConfig}
    (hfind : layers.reverse.find? speaks = none)
    (hspeaks : ∀ l, (f.get l).isSome = true → speaks l = true) : f.last layers = none := by
  rw [Setting.last, List.findSome?_eq_none_iff]
  intro l hl
  rw [← Option.not_isSome_iff_eq_none]
  intro hsome
  exact List.find?_eq_none.mp hfind l hl (hspeaks l hsome)

/-- The address that is made of what the layers say last. -/
theorem resolved_address (tbl : CaseTable) (layers : List RawConfig) :
    (((merged layers).resolve tbl).proxy_bind, ((merged layers).resolve tbl).proxy_port) =
      match listen.last layers with
      | some raw => listen_or_default raw
      | none => (bind_or_default (bind.last layers), port_or_default (port.last layers)) := by
  rw [← listen.merged, ← bind.merged, ← port.merged]
  rfl

/-- The address is that of the last layer that speaks when the layers below
    make no difference to it. -/
theorem address_iff (layers : List RawConfig) :
    (match listen.last layers with
      | some raw => listen_or_default raw
      | none => (bind_or_default (bind.last layers), port_or_default (port.last layers))) =
      (match layers.reverse.find? speaks with
        | some layer => resolve_proxy_listen layer.proxy
        | none => default_listen) ↔
      ∀ layer, layers.reverse.find? speaks = some layer → Undisturbed layers layer := by
  have hlisten : ∀ l, (listen.get l).isSome = true → speaks l = true := by
    intro l h
    simp [speaks, h]
  have hport : ∀ l, (port.get l).isSome = true → speaks l = true := by
    intro l h
    simp [speaks, h]
  have hbind : ∀ l, (bind.get l).isSome = true → speaks l = true := by
    intro l h
    simp [speaks, h]
  cases hfind : layers.reverse.find? speaks with
  | none =>
    rw [Setting.last_of_silent hfind hlisten, Setting.last_of_silent hfind hport,
      Setting.last_of_silent hfind hbind]
    exact iff_of_true rfl fun layer h => by cases h
  | some layer =>
    simp only [Option.some.injEq, forall_eq']
    have hresolve : resolve_proxy_listen layer.proxy =
        match listen.get layer with
        | some raw => listen_or_default raw
        | none => (bind_or_default (bind.get layer), port_or_default (port.get layer)) := rfl
    rw [hresolve]
    unfold Undisturbed
    cases hown : listen.get layer with
    | some raw =>
      rw [Setting.last_of_find hfind hlisten hown]
      simp
    | none =>
      cases listen.last layers with
      | some raw => simp
      | none => simp [Prod.ext_iff]

/-- **Higher layers win** exactly when the last layer that says anything about
    the address, the environment included, is not disturbed by the others. -/
theorem higher_layers_win_iff (tbl : CaseTable) (env : Env) (layers : List RawConfig) :
    HigherWin tbl (layers ++ [env_layer env]) (load_config tbl env layers) ↔
      ∀ layer, (layers ++ [env_layer env]).reverse.find? speaks = some layer →
        Undisturbed (layers ++ [env_layer env]) layer := by
  rw [load_config_eq]
  generalize layers ++ [env_layer env] = all
  rw [← address_iff]
  constructor
  · intro h
    rw [← h.address, resolved_address]
  · intro haddress
    refine ⟨(resolved_address tbl all).trans haddress, ?_, ?_, ?_, ?_, ?_, ?_, ?_, ?_, ?_, ?_⟩
    · show (https.get (merged all)).getD Config.default.proxy_https = _
      rw [https.merged]
    · show (max_hops.get (merged all)).getD Config.default.max_hops = _
      rw [max_hops.merged]
    · show ensure_localhost ((domains.get (merged all)).getD Config.default.domains) = _
      rw [domains.merged]
    · show ((display.get (merged all)).map (resolve_domain_displays tbl)).getD [] = _
      rw [display.merged]
      rfl
    · show app_port.get (merged all) = _
      rw [app_port.merged]
      exact (Option.or_none).symm
    · show (port_range_start.get (merged all)).getD Config.default.app_port_range.1 = _
      rw [port_range_start.merged]
    · show (port_range_end.get (merged all)).getD Config.default.app_port_range.2 = _
      rw [port_range_end.merged]
    · show (force.get (merged all)).getD Config.default.app_force = _
      rw [force.merged]
    · show (ready_timeout.get (merged all)).getD Config.default.ready_timeout = _
      rw [ready_timeout.merged]
    · show (state_dir.get (merged all)).map PathBuf.from_str = _
      rw [state_dir.merged]
      exact (Option.or_none).symm

/-- A layer that sets nothing but this. -/
def proxy_layer (listen : Option Str) (port : Option UInt16) : RawConfig :=
  { RawConfig.default with proxy := some { RawProxy.default with listen := listen, port := port } }

/-- No environment variable is set. -/
def no_env : Env := ⟨.unix, fun _ => none⟩

/-- The user has a `listen`, and the project a `port`. -/
def user_and_project : List RawConfig :=
  [proxy_layer (some "127.0.0.1:3355".toList) none, proxy_layer none (some 8080)]

/-- The `port` of the project changes nothing. -/
theorem project_port_ignored :
    (load_config asciiTable no_env user_and_project).proxy_port = 3355 ∧
      ¬ HigherWin asciiTable (user_and_project ++ [env_layer no_env])
        (load_config asciiTable no_env user_and_project) := by
  have hport : (load_config asciiTable no_env user_and_project).proxy_port = 3355 := by decide
  refine ⟨hport, ?_⟩
  intro h
  have haddress := congrArg Prod.snd h.address
  rw [hport] at haddress
  revert haddress
  decide

end Nsl.Layers
