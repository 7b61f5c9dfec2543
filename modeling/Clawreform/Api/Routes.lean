import Clawreform.Lib.PathRouter

namespace Clawreform.Api

open Clawreform.Lib.Text Clawreform.Lib.PathRouter

inductive Method where
  | get
  | post
  | put
  | patch
  | delete
  | head
  | options
  | other (name : Str)
  deriving DecidableEq

def Method.changesState : Method → Bool
  | .post => true
  | .put => true
  | .patch => true
  | .delete => true
  | _ => false

/-- A path pattern and the methods that have a handler under it. -/
structure Route where
  path : Str
  methods : List Method
  deriving DecidableEq

def routeTable : List (String × List Method) :=
  [("/", [.get]),
    ("/logo.png", [.get]),
    ("/favicon.ico", [.get]),
    ("/branding/{*path}", [.get]),
    ("/api/metrics", [.get]),
    ("/api/health", [.get]),
    ("/api/health/detail", [.get]),
    ("/api/status", [.get]),
    ("/api/version", [.get]),
    ("/api/agents", [.get, .post]),
    ("/api/agents/{id}", [.get, .delete]),
    ("/api/agents/{id}/mode", [.put]),
    ("/api/profiles", [.get]),
    ("/api/agents/{id}/message", [.post]),
    ("/api/agents/{id}/message/stream", [.post]),
    ("/api/agents/{id}/session", [.get]),
    ("/api/agents/{id}/sessions", [.get, .post]),
    ("/api/agents/{id}/sessions/{session_id}/switch", [.post]),
    ("/api/agents/{id}/session/reset", [.post]),
    ("/api/agents/{id}/session/compact", [.post]),
    ("/api/agents/{id}/stop", [.post]),
    ("/api/agents/{id}/model", [.put]),
    ("/api/agents/{id}/skills", [.get, .put]),
    ("/api/agents/{id}/mcp_servers", [.get, .put]),
    ("/api/agents/{id}/identity", [.patch]),
    ("/api/agents/{id}/config", [.patch]),
    ("/api/agents/{id}/clone", [.post]),
    ("/api/agents/{id}/files", [.get]),
    ("/api/agents/{id}/files/{filename}", [.get, .put]),
    ("/api/agents/{id}/deliveries", [.get]),
    ("/api/agents/{id}/upload", [.post]),
    ("/api/agents/{id}/ws", [.get]),
    ("/api/uploads/{file_id}", [.get]),
    ("/api/channels", [.get]),
    ("/api/channels/{name}/configure", [.post, .delete]),
    ("/api/channels/{name}/test", [.post]),
    ("/api/channels/reload", [.post]),
    ("/api/channels/whatsapp/qr/start", [.post]),
    ("/api/channels/whatsapp/qr/status", [.get]),
    ("/api/templates", [.get]),
    ("/api/templates/{name}", [.get]),
    ("/api/memory/agents/{id}/kv", [.get]),
    ("/api/memory/agents/{id}/kv/{key}", [.get, .put, .delete]),
    ("/api/triggers", [.get, .post]),
    ("/api/triggers/{id}", [.delete, .put]),
    ("/api/schedules", [.get, .post]),
    ("/api/schedules/{id}", [.delete, .put]),
    ("/api/schedules/{id}/run", [.post]),
    ("/api/workflows", [.get, .post]),
    ("/api/workflows/{id}/run", [.post]),
    ("/api/workflows/{id}/runs", [.get]),
    ("/api/skills", [.get]),
    ("/api/skills/install", [.post]),
    ("/api/skills/uninstall", [.post]),
    ("/api/import/scan", [.post]),
    ("/api/import", [.post]),
    ("/api/import/suggestions", [.get]),
    ("/api/marketplace/search", [.get]),
    ("/api/clawhub/search", [.get]),
    ("/api/clawhub/browse", [.get]),
    ("/api/clawhub/skill/{slug}", [.get]),
    ("/api/clawhub/install", [.post]),
    ("/api/hands", [.get]),
    ("/api/hands/active", [.get]),
    ("/api/hands/{hand_id}", [.get]),
    ("/api/hands/{hand_id}/activate", [.post]),
    ("/api/hands/{hand_id}/check-deps", [.post]),
    ("/api/hands/{hand_id}/install-deps", [.post]),
    ("/api/hands/instances/{id}/pause", [.post]),
    ("/api/hands/instances/{id}/resume", [.post]),
    ("/api/hands/instances/{id}", [.delete]),
    ("/api/hands/instances/{id}/stats", [.get]),
    ("/api/hands/instances/{id}/browser", [.get]),
    ("/api/mcp/servers", [.get]),
    ("/api/audit/recent", [.get]),
    ("/api/audit/verify", [.get]),
    ("/api/logs/stream", [.get]),
    ("/api/peers", [.get]),
    ("/api/network/status", [.get]),
    ("/api/tools", [.get]),
    ("/api/config", [.get]),
    ("/api/config/schema", [.get]),
    ("/api/config/set", [.post]),
    ("/api/approvals", [.get, .post]),
    ("/api/approvals/{id}/approve", [.post]),
    ("/api/approvals/{id}/reject", [.post]),
    ("/api/usage", [.get]),
    ("/api/usage/summary", [.get]),
    ("/api/usage/by-model", [.get]),
    ("/api/usage/daily", [.get]),
    ("/api/budget", [.get, .put]),
    ("/api/budget/agents", [.get]),
    ("/api/budget/agents/{id}", [.get]),
    ("/api/sessions", [.get]),
    ("/api/sessions/{id}", [.delete]),
    ("/api/sessions/{id}/label", [.put]),
    ("/api/agents/{id}/sessions/by-label/{label}", [.get]),
    ("/api/agents/{id}/update", [.put]),
    ("/api/security", [.get]),
    ("/api/models", [.get]),
    ("/api/models/aliases", [.get]),
    ("/api/models/{*id}", [.get]),
    ("/api/providers", [.get]),
    ("/api/providers/{name}/key", [.post, .delete]),
    ("/api/providers/{name}/test", [.post]),
    ("/api/providers/{name}/url", [.put]),
    ("/api/skills/create", [.post]),
    ("/api/migrate/detect", [.get]),
    ("/api/migrate/scan", [.post]),
    ("/api/migrate", [.post]),
    ("/api/cron/jobs", [.get, .post]),
    ("/api/cron/jobs/{id}", [.delete]),
    ("/api/cron/jobs/{id}/enable", [.put]),
    ("/api/cron/jobs/{id}/status", [.get]),
    ("/hooks/wake", [.post]),
    ("/hooks/agent", [.post]),
    ("/api/company/overview", [.get]),
    ("/api/company/goals", [.get, .post]),
    ("/api/company/goals/{id}", [.put, .delete]),
    ("/api/company/issues", [.get, .post]),
    ("/api/company/issues/{id}", [.put, .delete]),
    ("/api/company/issues/{id}/comments", [.post]),
    ("/api/company/org", [.get]),
    ("/api/shutdown", [.post]),
    ("/api/commands", [.get]),
    ("/api/config/reload", [.post]),
    ("/api/bindings", [.get, .post]),
    ("/api/bindings/{index}", [.delete]),
    ("/.well-known/agent.json", [.get]),
    ("/a2a/agents", [.get]),
    ("/a2a/tasks/send", [.post]),
    ("/a2a/tasks/{id}", [.get]),
    ("/a2a/tasks/{id}/cancel", [.post]),
    ("/api/a2a/agents", [.get]),
    ("/api/a2a/discover", [.post]),
    ("/api/a2a/send", [.post]),
    ("/api/a2a/tasks/{id}/status", [.get]),
    ("/api/integrations", [.get]),
    ("/api/integrations/available", [.get]),
    ("/api/integrations/add", [.post]),
    ("/api/integrations/{id}", [.delete]),
    ("/api/integrations/{id}/reconnect", [.post]),
    ("/api/integrations/health", [.get]),
    ("/api/integrations/reload", [.post]),
    ("/api/pairing/request", [.post]),
    ("/api/pairing/complete", [.post]),
    ("/api/pairing/devices", [.get]),
    ("/api/pairing/devices/{id}", [.delete]),
    ("/api/pairing/notify", [.post]),
    ("/mcp", [.post]),
    ("/api/openclaw/status", [.get]),
    ("/api/openclaw/agents", [.get, .post]),
    ("/api/openclaw/agents/{id}", [.get]),
    ("/api/openclaw/dispatch", [.post]),
    ("/api/openclaw/routes", [.get]),
    ("/api/openclaw/schedules", [.get, .post]),
    ("/api/openclaw/schedules/{id}/trigger", [.post]),
    ("/api/openclaw/evaluate", [.post]),
    ("/api/openclaw/repair", [.post]),
    ("/api/openclaw/repair/{id}", [.get]),
    ("/api/openclaw/repair/{id}/execute", [.post]),
    ("/api/openclaw/strategies", [.get]),
    ("/v1/chat/completions", [.post]),
    ("/v1/models", [.get])]

def routes : List Route := routeTable.map fun entry => ⟨entry.1.toList, entry.2⟩

/-- The route whose handlers a path goes to. -/
def routeFor (path : Str) : Option Route :=
  find (segments path) (routes.map fun route => (parsePattern route.path, route))

end Clawreform.Api
