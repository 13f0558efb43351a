import K3smApis.GoText
import K3smApis.BudgetVocabulary
import K3smApis.BudgetTypes
import K3smApis.FieldChecks
import K3smApis.ObservationValidate
import K3smApis.StringMap
import K3smApis.PolicySpec
import K3smApis.PolicySelection
import K3smApis.ByteImage
import K3smApis.RowLayout
import K3smApis.PageLayout
import K3smApis.PageEncoding
import K3smApis.PageRoundTrip
import K3smApis.PageAbsence
import K3smApis.PageTable
import K3smApis.AtomicProgram
import K3smApis.SingleWriter
import K3smApis.PageWriter
import K3smApis.PageHeader
import K3smApis.ResumeHeader
import K3smApis.PageMachine
import K3smApis.SeqlockSafety
import K3smApis.SeqlockTakeover
import K3smApis.NotifyEpoch
import K3smApis.RuneText
import K3smApis.CivilTime
import K3smApis.QuarantineRegistry
import K3smApis.QuarantineSignature
import K3smApis.QuarantineVerdict
import K3smApis.TestStream
import K3smApis.StreamRuns
import K3smApis.LockCooldown
import K3smApis.LockDiff
import K3smApis.Decimal
import K3smApis.JsonText
import K3smApis.JsonTree
import K3smApis.GoJson
import K3smApis.GoJsonEncode
import K3smApis.Rfc3339
import K3smApis.AnnotationTypes
import K3smApis.AnnotationPayload
import K3smApis.DuplicateKeys
import K3smApis.StrictDecode
import K3smApis.SchemaProbe
import K3smApis.WindowMerge
import K3smApis.WindowTotals
import K3smApis.SlashPath
import K3smApis.ArtifactPath
import K3smApis.FileTree
import K3smApis.ArtifactPathSet
import K3smApis.DnsName
import K3smApis.VolumeDir
import K3smApis.Utf8
import K3smApis.ChipSlug
import K3smApis.DnsOptions
import K3smApis.LeafEncode
import K3smApis.InterconnectPayload
import K3smApis.InterconnectRoundTrip
import K3smApis.RegistryWriter
import K3smApis.KeyedList
import K3smApis.StreamOrder
import K3smApis.ReportEncode
import K3smApis.ReportRoundTrip
import K3smApis.PageAdmission
import K3smApis.MeshHost
import K3smApis.TextLines
import K3smApis.AffectedList
import K3smApis.OsvCheck
import K3smApis.ModFile
import K3smApis.ReplaceCheck
import K3smApis.Cel
import K3smApis.Schema
import K3smApis.BudgetSchema
import K3smApis.PolicySchema
import K3smApis.StatusSchema
import K3smApis.StatusAdmission
import K3smApis.LockUpdate
import K3smApis.UpdateRuns
import K3smApis.JsonStrings
import K3smApis.GoJsonReads
import K3smApis.InterconnectLedger
import K3smApis.DesiredPolicy
import K3smApis.WrapperList
import K3smApis.DepsCheck
import K3smApis.GovcsGuard
import K3smApis.PageDelivery
import K3smApis.StoredResource
import K3smApis.UpdateLifecycle
import K3smApis.NetAddr
