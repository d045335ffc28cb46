import Djangors.Theorems.WriteScope
import Djangors.Theorems.Correlation
import Djangors.Theorems.CacheRuns
import Djangors.Theorems.CacheInterleaving
import Djangors.Theorems.Planners
import Djangors.Theorems.Sections
import Djangors.Theorems.ResetTokens
import Djangors.Theorems.RecurringTicks
import Djangors.Theorems.ConcurrentCalls
import Djangors.Theorems.TaskQueue
import Djangors.Theorems.Webhooks
import Djangors.Theorems.ReadBack
import Djangors.Theorems.RunnerHistory
import Djangors.Theorems.Reverse
import Djangors.Theorems.Csrf
import Djangors.Theorems.LockoutRaces
import Djangors.Theorems.Keyset
import Djangors.Theorems.SessionContinuity
import Djangors.Theorems.ObjectPermissions
import Djangors.Theorems.SerializedFields
import Djangors.Theorems.BaseFilter
import Djangors.Theorems.CacheReads
import Djangors.Theorems.PageVisits
import Djangors.Theorems.ThrottledRoutes
import Djangors.Lib.Paging
import Djangors.Theorems.LocalStorage
import Djangors.Theorems.ErrorPages
import Djangors.Theorems.Operators
import Djangors.Theorems.Exclude
import Djangors.Theorems.TextLookups
import Djangors.Theorems.Terminals
import Djangors.Theorems.TenantResolution
import Djangors.Theorems.KeysetStep
import Djangors.Theorems.Projections
import Djangors.Theorems.FormEdits
import Djangors.Theorems.Superusers
import Djangors.Theorems.ConditionTexts
import Djangors.Theorems.SectionBodies
import Djangors.Theorems.RouteGrammar
import Djangors.Theorems.CacheIsolation
import Djangors.Theorems.CompletePlans
import Djangors.Theorems.ModelForms
import Djangors.Theorems.ManyToManySets
import Djangors.Theorems.BatchLoading
import Djangors.Theorems.InsertPaths
import Djangors.Theorems.Cookies
import Djangors.Theorems.HostValidation
import Djangors.Theorems.Streaming
import Djangors.Theorems.Mounting
import Djangors.Theorems.Limiters
import Djangors.Theorems.QueryStrings
import Djangors.Theorems.WireValues
import Djangors.Theorems.SufficientBodies
import Djangors.Theorems.Patches
import Djangors.Theorems.FilterBackends
import Djangors.Theorems.TokenSoundness
import Djangors.Theorems.LoginWindows
import Djangors.Theorems.CacheBackends
import Djangors.Theorems.BadSchedules
import Djangors.Theorems.Amounts
import Djangors.Theorems.CronMeaning
import Djangors.Theorems.CsvExports
import Djangors.Theorems.DeleteConfirmation
import Djangors.Theorems.ChangeForms
import Djangors.Theorems.SavedChangelists
import Djangors.Theorems.DateHierarchy
import Djangors.Theorems.ChangelistLinks
import Djangors.Theorems.FormSets
import Djangors.Theorems.Uploads
import Djangors.Theorems.RemoteCommands
import Djangors.Theorems.Collect
import Djangors.Theorems.Feeds
import Djangors.Theorems.Widgets
import Djangors.Theorems.CursorWalks
import Djangors.Theorems.CursorWalks
