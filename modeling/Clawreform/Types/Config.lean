import Clawreform.Lib.Serde

namespace Clawreform.Types.Config

open Clawreform.Lib.Text Clawreform.Lib.Serde

inductive UsageFooterMode where
  | off
  | tokens
  | cost
  | full
  deriving DecidableEq

inductive KernelMode where
  | stable
  | default
  | dev
  deriving DecidableEq

section Sections

def struct (fields : List (String × Shape)) : Shape :=
  .struct (fields.map fun field => (field.1.toList, field.2))

def unit (names : List String) : Shape := .unit (names.map String.toList)

def defaultModelConfig : Shape :=
  struct [("provider", .text), ("model", .text), ("api_key_env", .text),
    ("base_url", .option .text)]

def memoryConfig : Shape :=
  struct [("sqlite_path", .option .path), ("embedding_model", .text),
    ("consolidation_threshold", .uint 64), ("decay_rate", .f32),
    ("embedding_provider", .option .text), ("embedding_api_key_env", .option .text),
    ("consolidation_interval_hours", .uint 64)]

def networkConfig : Shape :=
  struct [("listen_addresses", .seq .text), ("bootstrap_peers", .seq .text),
    ("mdns_enabled", .bool), ("max_peers", .uint 32), ("shared_secret", .text)]

def dmPolicy : Shape :=
  unit ["respond", "allowed_only", "ignore"]

def groupPolicy : Shape :=
  unit ["all", "mention_only", "commands_only", "ignore"]

def outputFormat : Shape :=
  unit ["markdown", "telegram_html", "slack_mrkdwn", "plain_text"]

def usageFooterMode : Shape :=
  unit ["off", "tokens", "cost", "full"]

def typingMode : Shape :=
  unit ["instant", "message", "thinking", "never"]

def channelOverrides : Shape :=
  struct [("model", .option .text), ("system_prompt", .option .text), ("dm_policy", dmPolicy),
    ("group_policy", groupPolicy), ("rate_limit_per_user", .uint 32), ("threading", .bool),
    ("output_format", .option outputFormat), ("usage_footer", .option usageFooterMode),
    ("typing_mode", .option typingMode)]

def telegramConfig : Shape :=
  struct [("bot_token_env", .text), ("allowed_users", .seq (.sint 64)),
    ("default_agent", .option .text), ("poll_interval_secs", .uint 64),
    ("overrides", channelOverrides)]

def discordConfig : Shape :=
  struct [("bot_token_env", .text), ("allowed_guilds", .seq (.uint 64)),
    ("default_agent", .option .text), ("intents", .uint 64), ("overrides", channelOverrides)]

def slackConfig : Shape :=
  struct [("app_token_env", .text), ("bot_token_env", .text), ("allowed_channels", .seq .text),
    ("default_agent", .option .text), ("overrides", channelOverrides)]

def whatsAppConfig : Shape :=
  struct [("access_token_env", .text), ("verify_token_env", .text), ("phone_number_id", .text),
    ("webhook_port", .uint 16), ("gateway_url_env", .text), ("allowed_users", .seq .text),
    ("default_agent", .option .text), ("overrides", channelOverrides)]

def signalConfig : Shape :=
  struct [("api_url", .text), ("phone_number", .text), ("allowed_users", .seq .text),
    ("default_agent", .option .text), ("overrides", channelOverrides)]

def matrixConfig : Shape :=
  struct [("homeserver_url", .text), ("user_id", .text), ("access_token_env", .text),
    ("allowed_rooms", .seq .text), ("default_agent", .option .text),
    ("overrides", channelOverrides)]

def emailConfig : Shape :=
  struct [("imap_host", .text), ("imap_port", .uint 16), ("smtp_host", .text),
    ("smtp_port", .uint 16), ("username", .text), ("password_env", .text),
    ("poll_interval_secs", .uint 64), ("folders", .seq .text), ("allowed_senders", .seq .text),
    ("default_agent", .option .text), ("overrides", channelOverrides)]

def teamsConfig : Shape :=
  struct [("app_id", .text), ("app_password_env", .text), ("webhook_port", .uint 16),
    ("allowed_tenants", .seq .text), ("default_agent", .option .text),
    ("overrides", channelOverrides)]

def mattermostConfig : Shape :=
  struct [("server_url", .text), ("token_env", .text), ("allowed_channels", .seq .text),
    ("default_agent", .option .text), ("overrides", channelOverrides)]

def ircConfig : Shape :=
  struct [("server", .text), ("port", .uint 16), ("nick", .text), ("password_env", .option .text),
    ("channels", .seq .text), ("use_tls", .bool), ("default_agent", .option .text),
    ("overrides", channelOverrides)]

def googleChatConfig : Shape :=
  struct [("service_account_env", .text), ("space_ids", .seq .text), ("webhook_port", .uint 16),
    ("default_agent", .option .text), ("overrides", channelOverrides)]

def twitchConfig : Shape :=
  struct [("oauth_token_env", .text), ("channels", .seq .text), ("nick", .text),
    ("default_agent", .option .text), ("overrides", channelOverrides)]

def rocketChatConfig : Shape :=
  struct [("server_url", .text), ("token_env", .text), ("user_id", .text),
    ("allowed_channels", .seq .text), ("default_agent", .option .text),
    ("overrides", channelOverrides)]

def zulipConfig : Shape :=
  struct [("server_url", .text), ("bot_email", .text), ("api_key_env", .text),
    ("streams", .seq .text), ("default_agent", .option .text), ("overrides", channelOverrides)]

def xmppConfig : Shape :=
  struct [("jid", .text), ("password_env", .text), ("server", .text), ("port", .uint 16),
    ("rooms", .seq .text), ("default_agent", .option .text), ("overrides", channelOverrides)]

def lineConfig : Shape :=
  struct [("channel_secret_env", .text), ("access_token_env", .text), ("webhook_port", .uint 16),
    ("default_agent", .option .text), ("overrides", channelOverrides)]

def viberConfig : Shape :=
  struct [("auth_token_env", .text), ("webhook_url", .text), ("webhook_port", .uint 16),
    ("default_agent", .option .text), ("overrides", channelOverrides)]

def messengerConfig : Shape :=
  struct [("page_token_env", .text), ("verify_token_env", .text), ("webhook_port", .uint 16),
    ("default_agent", .option .text), ("overrides", channelOverrides)]

def redditConfig : Shape :=
  struct [("client_id", .text), ("client_secret_env", .text), ("username", .text),
    ("password_env", .text), ("subreddits", .seq .text), ("default_agent", .option .text),
    ("overrides", channelOverrides)]

def mastodonConfig : Shape :=
  struct [("instance_url", .text), ("access_token_env", .text), ("default_agent", .option .text),
    ("overrides", channelOverrides)]

def blueskyConfig : Shape :=
  struct [("identifier", .text), ("app_password_env", .text), ("service_url", .text),
    ("default_agent", .option .text), ("overrides", channelOverrides)]

def feishuConfig : Shape :=
  struct [("app_id", .text), ("app_secret_env", .text), ("webhook_port", .uint 16),
    ("default_agent", .option .text), ("overrides", channelOverrides)]

def revoltConfig : Shape :=
  struct [("bot_token_env", .text), ("api_url", .text), ("default_agent", .option .text),
    ("overrides", channelOverrides)]

def nextcloudConfig : Shape :=
  struct [("server_url", .text), ("token_env", .text), ("allowed_rooms", .seq .text),
    ("default_agent", .option .text), ("overrides", channelOverrides)]

def guildedConfig : Shape :=
  struct [("bot_token_env", .text), ("server_ids", .seq .text), ("default_agent", .option .text),
    ("overrides", channelOverrides)]

def keybaseConfig : Shape :=
  struct [("username", .text), ("paperkey_env", .text), ("allowed_teams", .seq .text),
    ("default_agent", .option .text), ("overrides", channelOverrides)]

def threemaConfig : Shape :=
  struct [("threema_id", .text), ("secret_env", .text), ("webhook_port", .uint 16),
    ("default_agent", .option .text), ("overrides", channelOverrides)]

def nostrConfig : Shape :=
  struct [("private_key_env", .text), ("relays", .seq .text), ("default_agent", .option .text),
    ("overrides", channelOverrides)]

def webexConfig : Shape :=
  struct [("bot_token_env", .text), ("allowed_rooms", .seq .text),
    ("default_agent", .option .text), ("overrides", channelOverrides)]

def pumbleConfig : Shape :=
  struct [("bot_token_env", .text), ("webhook_port", .uint 16), ("default_agent", .option .text),
    ("overrides", channelOverrides)]

def flockConfig : Shape :=
  struct [("bot_token_env", .text), ("webhook_port", .uint 16), ("default_agent", .option .text),
    ("overrides", channelOverrides)]

def twistConfig : Shape :=
  struct [("token_env", .text), ("workspace_id", .text), ("allowed_channels", .seq .text),
    ("default_agent", .option .text), ("overrides", channelOverrides)]

def mumbleConfig : Shape :=
  struct [("host", .text), ("port", .uint 16), ("username", .text), ("password_env", .text),
    ("channel", .text), ("default_agent", .option .text), ("overrides", channelOverrides)]

def dingTalkConfig : Shape :=
  struct [("access_token_env", .text), ("secret_env", .text), ("webhook_port", .uint 16),
    ("default_agent", .option .text), ("overrides", channelOverrides)]

def discourseConfig : Shape :=
  struct [("base_url", .text), ("api_key_env", .text), ("api_username", .text),
    ("categories", .seq .text), ("default_agent", .option .text), ("overrides", channelOverrides)]

def gitterConfig : Shape :=
  struct [("token_env", .text), ("room_id", .text), ("default_agent", .option .text),
    ("overrides", channelOverrides)]

def ntfyConfig : Shape :=
  struct [("server_url", .text), ("topic", .text), ("token_env", .text),
    ("default_agent", .option .text), ("overrides", channelOverrides)]

def gotifyConfig : Shape :=
  struct [("server_url", .text), ("app_token_env", .text), ("client_token_env", .text),
    ("default_agent", .option .text), ("overrides", channelOverrides)]

def webhookConfig : Shape :=
  struct [("secret_env", .text), ("listen_port", .uint 16), ("callback_url", .option .text),
    ("default_agent", .option .text), ("overrides", channelOverrides)]

def linkedInConfig : Shape :=
  struct [("access_token_env", .text), ("organization_id", .text),
    ("default_agent", .option .text), ("overrides", channelOverrides)]

def channelsConfig : Shape :=
  struct [("telegram", .option telegramConfig), ("discord", .option discordConfig),
    ("slack", .option slackConfig), ("whatsapp", .option whatsAppConfig),
    ("signal", .option signalConfig), ("matrix", .option matrixConfig),
    ("email", .option emailConfig), ("teams", .option teamsConfig),
    ("mattermost", .option mattermostConfig), ("irc", .option ircConfig),
    ("google_chat", .option googleChatConfig), ("twitch", .option twitchConfig),
    ("rocketchat", .option rocketChatConfig), ("zulip", .option zulipConfig),
    ("xmpp", .option xmppConfig), ("line", .option lineConfig), ("viber", .option viberConfig),
    ("messenger", .option messengerConfig), ("reddit", .option redditConfig),
    ("mastodon", .option mastodonConfig), ("bluesky", .option blueskyConfig),
    ("feishu", .option feishuConfig), ("revolt", .option revoltConfig),
    ("nextcloud", .option nextcloudConfig), ("guilded", .option guildedConfig),
    ("keybase", .option keybaseConfig), ("threema", .option threemaConfig),
    ("nostr", .option nostrConfig), ("webex", .option webexConfig),
    ("pumble", .option pumbleConfig), ("flock", .option flockConfig),
    ("twist", .option twistConfig), ("mumble", .option mumbleConfig),
    ("dingtalk", .option dingTalkConfig), ("discourse", .option discourseConfig),
    ("gitter", .option gitterConfig), ("ntfy", .option ntfyConfig),
    ("gotify", .option gotifyConfig), ("webhook", .option webhookConfig),
    ("linkedin", .option linkedInConfig)]

def userConfig : Shape :=
  struct [("name", .text), ("role", .text), ("channel_bindings", .map .text),
    ("api_key_hash", .option .text)]

def mcpTransportEntry : Shape :=
  .tagged "type".toList [("stdio".toList, [("command".toList, .text), ("args".toList, .seq .text)]),
    ("sse".toList, [("url".toList, .text)])]

def mcpServerConfigEntry : Shape :=
  struct [("name", .text), ("transport", mcpTransportEntry), ("timeout_secs", .uint 64),
    ("env", .seq .text)]

def externalAgent : Shape :=
  struct [("name", .text), ("url", .text)]

def a2aConfig : Shape :=
  struct [("enabled", .bool), ("listen_path", .text), ("external_agents", .seq externalAgent)]

def searchProvider : Shape :=
  unit ["brave", "tavily", "perplexity", "duck_duck_go", "auto"]

def braveSearchConfig : Shape :=
  struct [("api_key_env", .text), ("max_results", .uint 64), ("country", .text),
    ("search_lang", .text), ("freshness", .text)]

def tavilySearchConfig : Shape :=
  struct [("api_key_env", .text), ("search_depth", .text), ("max_results", .uint 64),
    ("include_answer", .bool)]

def perplexitySearchConfig : Shape :=
  struct [("api_key_env", .text), ("model", .text)]

def webFetchConfig : Shape :=
  struct [("max_chars", .uint 64), ("max_response_bytes", .uint 64), ("timeout_secs", .uint 64),
    ("readability", .bool)]

def webConfig : Shape :=
  struct [("search_provider", searchProvider), ("cache_ttl_minutes", .uint 64),
    ("brave", braveSearchConfig), ("tavily", tavilySearchConfig),
    ("perplexity", perplexitySearchConfig), ("fetch", webFetchConfig)]

def fallbackProviderConfig : Shape :=
  struct [("provider", .text), ("model", .text), ("api_key_env", .text),
    ("base_url", .option .text)]

def browserConfig : Shape :=
  struct [("headless", .bool), ("viewport_width", .uint 32), ("viewport_height", .uint 32),
    ("timeout_secs", .uint 64), ("idle_timeout_secs", .uint 64), ("max_sessions", .uint 64),
    ("python_path", .text)]

def extensionsConfig : Shape :=
  struct [("auto_reconnect", .bool), ("reconnect_max_attempts", .uint 32),
    ("reconnect_max_backoff_secs", .uint 64), ("health_check_interval_secs", .uint 64)]

def vaultConfig : Shape :=
  struct [("enabled", .bool), ("path", .option .path)]

def mediaConfig : Shape :=
  struct [("image_description", .bool), ("audio_transcription", .bool),
    ("video_description", .bool), ("max_concurrency", .uint 64),
    ("image_provider", .option .text), ("audio_provider", .option .text)]

def linkConfig : Shape :=
  struct [("enabled", .bool), ("max_links", .uint 64), ("max_content_bytes", .uint 64),
    ("timeout_secs", .uint 64)]

def reloadMode : Shape :=
  unit ["off", "restart", "hot", "hybrid"]

def reloadConfig : Shape :=
  struct [("mode", reloadMode), ("debounce_ms", .uint 64)]

def webhookTriggerConfig : Shape :=
  struct [("enabled", .bool), ("token_env", .text), ("max_payload_bytes", .uint 64),
    ("rate_limit_per_minute", .uint 32)]

def approvalPolicy : Shape :=
  struct [("require_approval", .seq .text), ("timeout_secs", .uint 64),
    ("auto_approve_autonomous", .bool)]

def execSecurityMode : Shape :=
  unit ["deny", "allowlist", "full"]

def execPolicy : Shape :=
  struct [("mode", execSecurityMode), ("safe_bins", .seq .text), ("allowed_commands", .seq .text),
    ("timeout_secs", .uint 64), ("max_output_bytes", .uint 64),
    ("no_output_timeout_secs", .uint 64)]

def bindingMatchRule : Shape :=
  struct [("channel", .option .text), ("account_id", .option .text), ("peer_id", .option .text),
    ("guild_id", .option .text), ("roles", .seq .text)]

def agentBinding : Shape :=
  struct [("agent", .text), ("match_rule", bindingMatchRule)]

def broadcastStrategy : Shape :=
  unit ["parallel", "sequential"]

def broadcastConfig : Shape :=
  struct [("strategy", broadcastStrategy), ("routes", .map (.seq .text))]

def autoReplyConfig : Shape :=
  struct [("enabled", .bool), ("max_concurrent", .uint 64), ("timeout_secs", .uint 64),
    ("suppress_patterns", .seq .text)]

def canvasConfig : Shape :=
  struct [("enabled", .bool), ("max_html_bytes", .uint 64), ("allowed_tags", .seq .text)]

def ttsOpenAiConfig : Shape :=
  struct [("voice", .text), ("model", .text), ("format", .text), ("speed", .f32)]

def ttsElevenLabsConfig : Shape :=
  struct [("voice_id", .text), ("model_id", .text), ("stability", .f32),
    ("similarity_boost", .f32)]

def ttsConfig : Shape :=
  struct [("enabled", .bool), ("provider", .option .text), ("openai", ttsOpenAiConfig),
    ("elevenlabs", ttsElevenLabsConfig), ("max_text_length", .uint 64),
    ("timeout_secs", .uint 64)]

def dockerSandboxMode : Shape :=
  unit ["off", "non_main", "all"]

def dockerScope : Shape :=
  unit ["session", "agent", "shared"]

def dockerSandboxConfig : Shape :=
  struct [("enabled", .bool), ("image", .text), ("container_prefix", .text), ("workdir", .text),
    ("network", .text), ("memory_limit", .text), ("cpu_limit", .f64), ("timeout_secs", .uint 64),
    ("read_only_root", .bool), ("cap_add", .seq .text), ("tmpfs", .seq .text),
    ("pids_limit", .uint 32), ("mode", dockerSandboxMode), ("scope", dockerScope),
    ("reuse_cool_secs", .uint 64), ("idle_timeout_secs", .uint 64), ("max_age_secs", .uint 64),
    ("blocked_mounts", .seq .text)]

def pairingConfig : Shape :=
  struct [("enabled", .bool), ("max_devices", .uint 64), ("token_expiry_secs", .uint 64),
    ("push_provider", .text), ("ntfy_url", .option .text), ("ntfy_topic", .option .text)]

def authProfile : Shape :=
  struct [("name", .text), ("api_key_env", .text), ("priority", .uint 32)]

def thinkingConfig : Shape :=
  struct [("budget_tokens", .uint 32), ("stream_thinking", .bool)]

def budgetConfig : Shape :=
  struct [("max_hourly_usd", .f64), ("max_daily_usd", .f64), ("max_monthly_usd", .f64),
    ("alert_threshold", .f64)]

def oAuthConfig : Shape :=
  struct [("google_client_id", .option .text), ("github_client_id", .option .text),
    ("microsoft_client_id", .option .text), ("slack_client_id", .option .text)]

end Sections

/-- The kernel configuration. A section is a value of its type as it is serialized; on a
64-bit machine a `usize` has 64 bits. -/
structure KernelConfig where
  homeDir : List UInt8
  dataDir : List UInt8
  logLevel : Str
  apiListen : Str
  networkEnabled : Bool
  defaultModel : Typed defaultModelConfig
  memory : Typed memoryConfig
  network : Typed networkConfig
  channels : Typed channelsConfig
  apiKey : Str
  mode : KernelMode
  language : Str
  users : Typed (.seq userConfig)
  mcpServers : Typed (.seq mcpServerConfigEntry)
  a2a : Typed (.option a2aConfig)
  usageFooter : UsageFooterMode
  web : Typed webConfig
  fallbackProviders : Typed (.seq fallbackProviderConfig)
  browser : Typed browserConfig
  extensions : Typed extensionsConfig
  vault : Typed vaultConfig
  workspacesDir : Typed (.option .path)
  media : Typed mediaConfig
  links : Typed linkConfig
  reload : Typed reloadConfig
  webhookTriggers : Typed (.option webhookTriggerConfig)
  approval : Typed approvalPolicy
  maxCronJobs : Nat
  includes : Typed (.seq .text)
  execPolicy : Typed execPolicy
  bindings : Typed (.seq agentBinding)
  broadcast : Typed broadcastConfig
  autoReply : Typed autoReplyConfig
  canvas : Typed canvasConfig
  tts : Typed ttsConfig
  docker : Typed dockerSandboxConfig
  pairing : Typed pairingConfig
  authProfiles : Typed (.map (.seq authProfile))
  thinking : Typed (.option thinkingConfig)
  budget : Typed budgetConfig
  providerUrls : Typed (.map .text)
  oauth : Typed oAuthConfig

end Clawreform.Types.Config
