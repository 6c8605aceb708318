import NextApi.Protocol.Anthropic.StreamOrder
import NextApi.Protocol.Anthropic.StreamRoundTrip
import NextApi.Protocol.Anthropic.ToolPairing
import NextApi.Routing.Restart
import NextApi.Gateway.Probes
import NextApi.Idempotency.Runs
import NextApi.Logging.WriterRuns
import NextApi.Protocol.Responses.RequestItems
import NextApi.Protocol.Responses.StreamCalls
import NextApi.Protocol.Responses.StreamContract
import NextApi.Media.TaskRuns
import NextApi.Media.ImageCount
import NextApi.Auth.TwoFactorRuns
import NextApi.Upstream.CodexAgreement
import NextApi.Admin.ModelSync
import NextApi.Logging.Partition
import NextApi.Logging.Redact
import NextApi.Billing.BatchSafety
import NextApi.Upstream.Devin.StreamRuns
import NextApi.Protocol.RequestChoices
import NextApi.Protocol.RequestExtras
import NextApi.Protocol.FailedStream
import NextApi.Gateway.AttemptPolicy
import NextApi.Gateway.ErrorWords
import NextApi.Gateway.RequestAccount
import NextApi.Cache.Reload
import NextApi.Upstream.CodexTokenRuns
import NextApi.Admin.UpdateUpstreamRuns
import NextApi.Billing.SegmentWindows
import NextApi.Upstream.AuthGuard
import NextApi.Upstream.ClientPools
import NextApi.Settings.EngineRuns
import NextApi.Admin.BatchWrites
import NextApi.Routing.PatternMatches
import NextApi.Gateway.CandidateOrder
import NextApi.Upstream.NestedPaths
import NextApi.Upstream.NetGuard
import NextApi.Idempotency.Fingerprint
import NextApi.Admin.UpdateRule
import NextApi.Upstream.SseRewrite
import NextApi.Upstream.Devin.RequestIds
import NextApi.Billing.PriceXmlRoundTrip
import NextApi.Upstream.Devin.RenderVars
import NextApi.Upstream.Devin.ProtoRoundTrip
import NextApi.Auth.ClientIp
import NextApi.Auth.LoginLimiter
import NextApi.Logging.WalLines
import NextApi.Media.Resolve
import NextApi.Admin.SettingsApi
import NextApi.Routing.StickyRuns
import NextApi.Upstream.ConvertedUsage
import NextApi.Auth.Sessions
import NextApi.Logging.Summary
import NextApi.Limit.QuotaGate
