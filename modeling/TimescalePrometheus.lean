import TimescalePrometheus.Query.ReadPathAgreement
import TimescalePrometheus.Sql.KeySessions
import TimescalePrometheus.Sql.ColumnClashes
import TimescalePrometheus.Sql.LabelEquality
import TimescalePrometheus.Sql.Settings
import TimescalePrometheus.Ingest.Shutdown
import TimescalePrometheus.Ingest.CreationSignals
import TimescalePrometheus.Clockcache.Hand
import TimescalePrometheus.Clockcache.Hits
import TimescalePrometheus.Clockcache.Uninterrupted
import TimescalePrometheus.Migrations.UpgradePath
import TimescalePrometheus.Migrations.Atomicity
import TimescalePrometheus.Election.Elector
import TimescalePrometheus.Api.FaithfulResponses
import TimescalePrometheus.Promql.Rates
import TimescalePrometheus.Promql.SelectorData
import TimescalePrometheus.Ingest.CommittedCache
import TimescalePrometheus.Query.Anchoring
import TimescalePrometheus.Migrations.FileNames
import TimescalePrometheus.Sql.MetricLoop
import TimescalePrometheus.Query.Timestamps
import TimescalePrometheus.Api.RangeQueries
import TimescalePrometheus.Query.CursorRelease
import TimescalePrometheus.Query.LabelLookup
import TimescalePrometheus.Ingest.ParsedRows
import TimescalePrometheus.Query.QueryTexts
import TimescalePrometheus.Clockcache.Partition
import TimescalePrometheus.Api.EscapedStrings
import TimescalePrometheus.Ingest.SampleIteration
import TimescalePrometheus.Api.SeriesEndpoint
import TimescalePrometheus.Client.Masking
import TimescalePrometheus.Promql.RangeEvaluation
import TimescalePrometheus.Sql.CreationSessions
